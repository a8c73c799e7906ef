import RobotDesk.Number.Binary64

/-!
The values of binary64 numbers.

Below the first power of two that has 53 bits a magnitude is its rank; behind it the ranks go
through the binades, each with twice the step of the one before.  So the magnitudes grow with their
ranks, and two numbers are the same exactly if they have one value.
-/
namespace RobotDesk.Number

/-- From the first power of two on, a magnitude has 53 bits in front of its scale. -/
theorem units_add_mul {binade fraction : Nat} (h : fraction < twoTo 52) :
    units ((binade + 1) * twoTo 52 + fraction) = (twoTo 52 + fraction) * twoTo binade := by
  have hpower : twoTo 52 = 4503599627370496 := rfl
  have hdouble : twoTo 53 = 9007199254740992 := rfl
  have hbinade : ((binade + 1) * twoTo 52 + fraction) / twoTo 52 = binade + 1 := by
    rw [hpower] at h ⊢
    omega
  have hfraction : ((binade + 1) * twoTo 52 + fraction) % twoTo 52 = fraction := by
    rw [hpower] at h ⊢
    omega
  rw [units, scale, hbinade, Nat.add_sub_cancel, significand, hfraction]
  split
  · rename_i hsmall
    have hzero : binade = 0 := by
      rw [hpower, hdouble] at hsmall
      omega
    subst hzero
    rw [Nat.zero_add, Nat.one_mul]
  · rfl

theorem units_of_lt {rank : Nat} (h : rank < twoTo 52) : units rank = rank := by
  have hpower : twoTo 52 = 4503599627370496 := rfl
  have hdouble : twoTo 53 = 9007199254740992 := rfl
  have hscale : scale rank = 0 := by
    rw [scale, Nat.div_eq_of_lt h]
  rw [units, hscale, significand, if_pos (by omega), twoTo_zero, Nat.mul_one]

/-- A rank lies below the first power of two, or in one of the binades behind it. -/
theorem rank_cases (rank : Nat) : rank < twoTo 52 ∨
    ∃ binade fraction, fraction < twoTo 52 ∧ rank = (binade + 1) * twoTo 52 + fraction := by
  have hpower : twoTo 52 = 4503599627370496 := rfl
  by_cases h : rank < twoTo 52
  · exact .inl h
  · refine .inr ⟨rank / twoTo 52 - 1, rank % twoTo 52, Nat.mod_lt _ (twoTo_pos 52), ?_⟩
    rw [hpower] at h ⊢
    omega

/-- The magnitudes grow with their ranks. -/
theorem units_lt_succ (rank : Nat) : units rank < units (rank + 1) := by
  have hpower : twoTo 52 = 4503599627370496 := rfl
  rcases rank_cases rank with hsmall | ⟨binade, fraction, hfraction, rfl⟩
  · by_cases hlast : rank + 1 < twoTo 52
    · rw [units_of_lt hsmall, units_of_lt hlast]
      omega
    · have hnext : rank + 1 = (0 + 1) * twoTo 52 + 0 := by omega
      rw [units_of_lt hsmall, hnext, units_add_mul (twoTo_pos 52), twoTo_zero]
      omega
  · have hpos := twoTo_pos binade
    by_cases hlast : fraction + 1 < twoTo 52
    · rw [Nat.add_assoc, units_add_mul hfraction, units_add_mul hlast]
      exact Nat.mul_lt_mul_of_pos_right (by omega) hpos
    · have hnext : (binade + 1) * twoTo 52 + fraction + 1 = (binade + 1 + 1) * twoTo 52 + 0 := by
        rw [hpower] at hfraction hlast ⊢
        omega
      rw [hnext, units_add_mul hfraction, units_add_mul (twoTo_pos 52), twoTo_succ]
      calc
        (twoTo 52 + fraction) * twoTo binade < (twoTo 52 * 2) * twoTo binade :=
          Nat.mul_lt_mul_of_pos_right (by omega) hpos
        _ = (twoTo 52 + 0) * (twoTo binade * 2) := by
          rw [Nat.add_zero, Nat.mul_assoc, Nat.mul_comm 2]

theorem units_lt {m n : Nat} (h : m < n) : units m < units n := by
  induction h with
  | refl => exact units_lt_succ m
  | step _ ih => exact Nat.lt_trans ih (units_lt_succ _)

theorem units_inj {m n : Nat} (h : units m = units n) : m = n := by
  rcases Nat.lt_trichotomy m n with hlt | heq | hgt
  · exact absurd h (Nat.ne_of_lt (units_lt hlt))
  · exact heq
  · exact absurd h (Nat.ne_of_gt (units_lt hgt))

namespace Binary64

/-- The number in units of `2 ^ -1074`. -/
def value (x : Binary64) : Int := if x.negative then -(units x.rank : Int) else units x.rank

/-- Two representations are the same number exactly if they have one value. -/
theorem same_iff_value (x y : Binary64) : x.same y = true ↔ x.value = y.value := by
  obtain ⟨n, r⟩ := x
  obtain ⟨m, s⟩ := y
  have hzero : units 0 = 0 := rfl
  simp only [same, value, Bool.or_eq_true, Bool.and_eq_true, decide_eq_true_eq, mk.injEq]
  constructor
  · rintro (⟨rfl, rfl⟩ | ⟨rfl, rfl⟩)
    · rfl
    · cases n <;> cases m <;> simp [hzero]
  · intro h
    have hmagnitude : units r = units s := by
      cases n <;> cases m <;> simp at h <;> omega
    obtain rfl := units_inj hmagnitude
    by_cases hsign : n = m
    · exact .inl ⟨hsign, rfl⟩
    · -- The value is its own opposite.
      have hnone : units r = units 0 := by
        cases n <;> cases m <;> simp at h hsign <;> omega
      obtain rfl := units_inj hnone
      exact .inr ⟨rfl, rfl⟩

end Binary64
end RobotDesk.Number
