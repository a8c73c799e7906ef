import RobotDesk.CommandLine.Grammar

/-!
Two readings of a command line, side by side.

A step of a reading is made of a few operations on its level: an option or operand is taken or left
open, and what was left open before is settled first.  So a relation between levels that these
operations respect is respected by whole steps.
-/
namespace RobotDesk.CommandLine.Level

/-- A relation `R` between two levels, and a relation `F` between what is made of them, which may
look at what the first level was given.  All that a step is made of respects them, as long as the
options and operands are `known`. -/
structure Lifts (known : Parameter → Prop) (R : Level → Level → Prop)
    (F : Level → Except UsageError Level → Except UsageError Level → Prop) : Prop where
  same : ∀ {l l' : Level}, R l l' →
    l'.pending = l.pending ∧ l'.operands = l.operands ∧ l'.closed = l.closed
  knownPending : ∀ {l l' : Level}, R l l' → ∀ p value, l.pending = some (p, value) → known p
  knownOperands : ∀ {l l' : Level}, R l l' → ∀ p ∈ l.operands, known p
  pending : ∀ {l l' : Level} (q : Option (Parameter × Option String)), R l l' →
    (∀ p value, q = some (p, value) → known p) → R { l with pending := q } { l' with pending := q }
  operands : ∀ {l l' : Level} (ps : List Parameter), R l l' → (∀ p ∈ ps, known p) →
    R { l with operands := ps } { l' with operands := ps }
  closed : ∀ {l l' : Level}, R l l' → R { l with closed := true } { l' with closed := true }
  ok : ∀ {l m m' : Level}, R m m' → m.given = l.given → F l (.ok m) (.ok m')
  error : ∀ {l : Level} (e : UsageError), F l (.error e) (.error e)
  given : ∀ {l m : Level} {r r' : Except UsageError Level}, m.given = l.given → F m r r' → F l r r'
  bind : ∀ {l : Level} {r r' : Except UsageError Level} {k : Level → Except UsageError Level},
    F l r r' → (∀ m m', R m m' → F m (k m) (k m')) → F l (r >>= k) (r' >>= k)
  take : ∀ {l l' : Level} {p : Parameter} (value : Option String), R l l' → known p →
    F l (l.take p value) (l'.take p value)

namespace Lifts

variable {known : Parameter → Prop} {R : Level → Level → Prop}
  {F : Level → Except UsageError Level → Except UsageError Level → Prop}
  (h : Lifts known R F) {l l' : Level} (hl : R l l') {g : Grammar} {p : Parameter}

include h hl

theorem settle : F l l.settle l'.settle := by
  unfold Level.settle
  rw [(h.same hl).1]
  split
  · exact h.ok hl rfl
  · rename_i p value hpending
    exact h.given (m := { l with pending := none }) rfl
      (h.take value (h.pending none hl (by simp)) (h.knownPending hl p value hpending))

theorem settleTake (hp : known p) (value : Option String) :
    F l (l.settleTake p value) (l'.settleTake p value) :=
  h.bind (h.settle hl) fun _ _ hm => h.take value hm hp

theorem settleOpen (hp : known p) (value : Option String) :
    F l (l.settleOpen p value) (l'.settleOpen p value) := by
  refine h.bind (h.settle hl) fun m m' hm => h.ok (h.pending _ hm ?_) rfl
  rintro q v ⟨⟩
  exact hp

theorem settleHelp : F l l.settleHelp l'.settleHelp :=
  h.bind (h.settle hl) fun _ _ _ => h.error .help

theorem long (hg : ∀ p ∈ g.options, known p) (cs : List Char) :
    F l (l.long g cs) (l'.long g cs) := by
  simp only [Level.long]
  split
  · rename_i p hp
    have hp : known p := hg p (List.mem_of_find?_eq_some hp)
    split
    · exact h.error _
    · exact h.settleTake hl hp _
    · exact h.settleTake hl hp _
    · exact h.settleOpen hl hp _
  · split
    · split
      · exact h.error _
      · exact h.settleHelp hl
    · exact h.error _

theorem shorts (hg : ∀ p ∈ g.options, known p) (cs : List Char) :
    F l (l.shorts g cs) (l'.shorts g cs) := by
  induction cs generalizing l l' with
  | nil => exact h.ok hl rfl
  | cons c cs ih =>
    simp only [Level.shorts]
    split
    · rename_i p hp
      have hp : known p := hg p (List.mem_of_find?_eq_some hp)
      split
      · exact h.bind (h.settleTake hl hp _) fun _ _ hm => ih hm
      · split
        · exact h.settleOpen hl hp _
        · exact h.settleTake hl hp _
        · exact h.settleTake hl hp _
    · split
      · exact h.settleHelp hl
      · exact h.error _

theorem operand (arg : String) : F l (l.operand g arg) (l'.operand g arg) := by
  unfold Level.operand
  rw [(h.same hl).2.1, (h.same hl).2.2]
  split
  · rename_i p ps hoperands
    have hknown := h.knownOperands hl
    rw [hoperands] at hknown
    refine h.bind (h.settleOpen hl (hknown p List.mem_cons_self) _) fun m m' hm => ?_
    exact h.ok (h.operands ps hm fun q hq => hknown q (List.mem_cons_of_mem p hq)) rfl
  · split <;> exact h.error _

/-- Two related levels are still related, in the way of `F`, after an argument. -/
theorem step (hg : ∀ p ∈ g.options, known p) (arg : String) :
    F l (l.step g arg) (l'.step g arg) := by
  obtain ⟨hpending, -, hclosed⟩ := h.same hl
  unfold Level.step
  rw [hclosed, hpending]
  split
  · exact h.operand hl arg
  split
  · have hclose := h.closed hl
    rw [hpending] at hclose
    exact h.ok hclose rfl
  · exact h.long hl hg _
  · exact h.shorts hl hg _
  · split
    · rename_i p hp
      have hknown : known p := h.knownPending hl p none hp
      have hopen := h.pending (some (p, some arg)) hl (by rintro q v ⟨⟩; exact hknown)
      rw [hclosed] at hopen
      exact h.ok hopen rfl
    · exact h.operand hl arg

end Lifts
end RobotDesk.CommandLine.Level
