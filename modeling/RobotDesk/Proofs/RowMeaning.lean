import RobotDesk.Proofs.ReceivedTime

/-!
What a row of the real orchestrator tells.

A row is understood column by column.  What a column tells is a relation, and reading it gives
exactly the values in that relation and fails as undecodable if there are none; so do two readings
one after the other.
-/
namespace RobotDesk

open Time

/-- A reading that gives exactly what is told, and if nothing is told, fails as undecodable. -/
structure Understands {α : Type} (reading : Except Failure α) (told : α → Prop) : Prop where
  ok : ∀ v, reading = .ok v ↔ told v
  error : ∀ f, reading = .error f → ∃ reason, f = .undecodable reason

namespace Understands

variable {α β : Type} {reading : Except Failure α} {told : α → Prop}

theorem congr {told' : α → Prop} (h : Understands reading told) (heq : ∀ v, told v ↔ told' v) :
    Understands reading told' :=
  ⟨fun v => (h.ok v).trans (heq v), h.error⟩

/-- A reading that gives one value whatever is told. -/
theorem pure (v : α) : Understands (.ok v) fun u => u = v :=
  ⟨fun _ => Except.ok.injEq v _ ▸ eq_comm, fun _ h => nomatch h⟩

theorem fail {reason : String} (h : ∀ v, ¬ told v) :
    Understands (.error (.undecodable reason)) told :=
  ⟨fun v => iff_of_false (fun hv => nomatch hv) (h v),
    fun _ hf => ⟨reason, (Except.error.inj hf).symm⟩⟩

/-- Either something is told, and given, or nothing is. -/
theorem cases (h : Understands reading told) :
    (∃ v, told v ∧ reading = .ok v) ∨
      ((∀ v, ¬ told v) ∧ ∃ reason, reading = .error (.undecodable reason)) := by
  cases hreading : reading with
  | ok v => exact .inl ⟨v, (h.ok v).mp hreading, rfl⟩
  | error f =>
    obtain ⟨reason, rfl⟩ := h.error f hreading
    refine .inr ⟨fun v hv => ?_, reason, rfl⟩
    rw [(h.ok v).mpr hv] at hreading
    cases hreading

/-- What is told in two stages. -/
theorem bind {next : α → Except Failure β} {toldNext : α → β → Prop} (h : Understands reading told)
    (hnext : ∀ u, told u → Understands (next u) (toldNext u)) :
    Understands (reading >>= next) fun v => ∃ u, told u ∧ toldNext u v := by
  obtain ⟨u, hu, rfl⟩ | ⟨hnone, reason, rfl⟩ := h.cases
  · refine (hnext u hu).congr fun v => ⟨fun hv => ⟨u, hu, hv⟩, ?_⟩
    rintro ⟨u', hu', hv⟩
    obtain rfl : u = u' := Except.ok.inj ((h.ok u').mpr hu')
    exact hv
  · apply fail
    rintro v ⟨u, hu, -⟩
    exact hnone u hu

end Understands

namespace OData

open Json

theorem understands_arguments? (raw : String) :
    Understands (arguments? raw) fun ms => parse raw = .ok (.object ms) := by
  unfold arguments?
  split
  · rename_i d hparse
    split
    · rename_i ms hmembers
      refine (Understands.pure ms).congr fun v => ?_
      rw [hparse, Except.ok.injEq, ← Document.members?_eq_some_iff, hmembers, Option.some.injEq,
        eq_comm]
    · rename_i hnot
      apply Understands.fail
      intro ms hms
      rw [hparse, Except.ok.injEq, ← Document.members?_eq_some_iff, hnot] at hms
      cases hms
  · rename_i hparse
    apply Understands.fail
    intro ms hms
    rw [hparse] at hms
    cases hms

namespace JobRow

variable (row : JobRow) (jobId : String)

end JobRow

end OData

end RobotDesk
