import Snapwebsites.Snaplock.Leaders
import Snapwebsites.Snaplock.Works

/-! # What the work on tickets leaves alone

The methods of tickets and the handlers about them change neither what the daemon knows of the cluster
nor its status; of the cache they only drop requests that timed out. -/

namespace Snapwebsites
open QString

namespace Snaplock

/-- The daemon is the same but for its tickets and what it has sent. -/
structure SameCluster (s s' : Snaplock) : Prop where
  cluster : s'.toCluster = s.toCluster
  checks : s'.checks = s.checks
  messageCache : s'.messageCache.Sublist s.messageCache

section Frame
variable {now : Int} {s s' s'' : Snaplock} {p : Nat} {objectName key : QString}

theorem SameCluster.refl (s : Snaplock) : SameCluster s s := ⟨rfl, rfl, .refl _⟩

theorem SameCluster.trans (h : SameCluster s s') (h' : SameCluster s' s'') : SameCluster s s'' :=
  ⟨h'.cluster.trans h.cluster, h'.checks.trans h.checks, h'.messageCache.trans h.messageCache⟩

theorem SameCluster.ready (h : SameCluster s s') : s'.ready = s.ready := by rw [h.cluster]

/-! ### Sending -/

theorem sameCluster_send (m : LockMessage LockCommand) : SameCluster s (s.send m) := ⟨rfl, rfl, .refl _⟩

theorem sameCluster_setTicket (t : SnaplockTicket) : SameCluster s (s.setTicket p t) := ⟨rfl, rfl, .refl _⟩

theorem sameCluster_checkLeaders : SameCluster s (s.checkLeaders now) := by
  unfold checkLeaders
  split
  · exact .refl s
  · split
    · exact .refl s
    · split
      · exact ⟨rfl, rfl, .refl _⟩
      · exact .refl s

/-! ### The work on tickets -/

theorem sameCluster_lockFailed : SameCluster s (s.lockFailed p) := by
  unfold lockFailed
  dsimp only
  split <;> exact ⟨rfl, rfl, .refl _⟩

theorem sameCluster_lockActivated : SameCluster s (s.lockActivated now p) := by
  unfold lockActivated
  dsimp only
  split <;> exact ⟨rfl, rfl, .refl _⟩

theorem Works.sameCluster (h : Works now s s') : SameCluster s s' := by
  induction h with
  | refl s => exact .refl s
  | trans _ _ ih ih' => exact ih.trans ih'
  | leaders l _ => exact ⟨rfl, rfl, .refl _⟩
  | tables enteringTickets tickets => exact ⟨rfl, rfl, .refl _⟩
  | ticket _ => exact ⟨rfl, rfl, .refl _⟩
  | lockFailed p => exact sameCluster_lockFailed
  | lockActivated p => exact sameCluster_lockActivated
  | cache => exact ⟨rfl, rfl, List.filter_sublist⟩

theorem sameCluster_cleanup (h : s.cleanup now = some s') : SameCluster s s' := (works_cleanup h).sameCluster

theorem sameCluster_makeTicket {message : LockMessage LockParameters} (h : s.makeTicket now message = some s') :
    SameCluster s s' := by
  unfold makeTicket at h
  dsimp only at h
  obtain ⟨t, ht, h⟩ := Option.bind_eq_some_iff.mp h
  have hst : SameCluster s t := by
    split at ht
    · cases ht
      exact ⟨rfl, rfl, .refl _⟩
    · have ht := (works_entering ht).sameCluster
      exact ⟨ht.cluster, ht.checks, ht.messageCache⟩
  exact hst.trans (sameCluster_cleanup h)

end Frame

end Snaplock
end Snapwebsites
