import FieldSchema.Binary64.Shortest
import Mathlib.Algebra.Order.Field.Power
import Mathlib.Order.Monotone.Basic
import Mathlib.Tactic.FieldSimp
import Mathlib.Tactic.Linarith
import Mathlib.Tactic.Positivity
import Mathlib.Tactic.Ring

/-!
# Shortest digits tell numbers apart

* `Binary64.interval_succ`: the interval of a positive rank reaches from halfway to the rank below
  to halfway to the rank above. `Binary64.Shortest.Rounds.unique` says that the intervals of two
  ranks have no number in common: where they meet, only one of the two significands is even.
* `Binary64.rounds_shortest`: the shortest decimal of a rank rounds to the rank.
* `Binary64.written`: the exact magnitude of the digits that are written for a rank.
  `Binary64.written_injective`: so different ranks are written with different digits.
-/

namespace FieldSchema.Binary64

/-! ## Ranks and their magnitudes -/

theorem units_eq (rank : Nat) : units rank = significand rank * 2 ^ doublings rank := by
  rw [units, Nat.shiftLeft_eq]

/-- A significand is as even or odd as its rank. -/
theorem significand_mod_two (rank : Nat) : significand rank % 2 = rank % 2 := by
  unfold significand leastNormal
  split <;> omega

/-- The spacing above a rank is that of the rank. -/
theorem units_succ (rank : Nat) : units (rank + 1) = units rank + 2 ^ doublings rank := by
  rw [units_eq, units_eq]
  by_cases hcarry : (rank + 1) % leastNormal = 0 ∧ leastNormal ≤ rank
  · -- the significand overflows, and the spacing doubles
    have hdoublings : doublings (rank + 1) = doublings rank + 1 := by
      unfold doublings leastNormal at *
      omega
    have hnext : significand (rank + 1) = leastNormal := by
      unfold significand leastNormal at *
      split <;> omega
    have hlast : significand rank = 2 * leastNormal - 1 := by
      unfold significand leastNormal at *
      split <;> omega
    rw [hdoublings, hnext, hlast, pow_succ]
    unfold leastNormal
    omega
  · have hdoublings : doublings (rank + 1) = doublings rank := by
      unfold doublings leastNormal at *
      omega
    have hnext : significand (rank + 1) = significand rank + 1 := by
      unfold significand leastNormal at *
      split <;> split <;> omega
    rw [hdoublings, hnext]
    ring

theorem units_strictMono : StrictMono units :=
  strictMono_nat_of_lt_succ fun rank => by
    rw [units_succ]
    exact Nat.lt_add_of_pos_right (Nat.two_pow_pos _)

theorem units_pos {rank : Nat} (h : 0 < rank) : 0 < units rank := by
  have hlt := units_strictMono h
  omega

namespace Shortest

/-- An interval ends halfway to the neighbours of the rank. -/
theorem interval_succ (rank : Nat) :
    interval (rank + 1) =
      (2 * (units rank + units (rank + 1)), 2 * (units (rank + 1) + units (rank + 2))) := by
  have hbelow := units_succ rank
  have habove := units_succ (rank + 1)
  have hspacing :
      (if significand (rank + 1) = leastNormal && 0 < doublings (rank + 1) then 1 else 2) *
        2 ^ doublings (rank + 1) = 2 * 2 ^ doublings rank := by
    split
    · rename_i hcarry
      have hdoublings : doublings (rank + 1) = doublings rank + 1 := by
        simp only [Bool.and_eq_true, decide_eq_true_eq] at hcarry
        unfold significand doublings leastNormal at *
        split at hcarry <;> omega
      rw [hdoublings, pow_succ]
      ring
    · rename_i hcarry
      have hdoublings : doublings (rank + 1) = doublings rank := by
        simp only [Bool.and_eq_true, decide_eq_true_eq, not_and] at hcarry
        unfold significand doublings leastNormal at *
        split at hcarry <;> omega
      rw [hdoublings]
  rw [interval, Nat.shiftLeft_eq, Nat.one_mul, hspacing, Prod.mk.injEq, habove]
  omega

/-! ## Numbers that round to a rank -/

/-- A number, in quarters of the least spacing, rounds to a rank. -/
def Rounds (rank : Nat) (x : ℚ) : Prop :=
  if significand rank % 2 = 0 then (interval rank).1 ≤ x ∧ x ≤ (interval rank).2
  else (interval rank).1 < x ∧ x < (interval rank).2

variable {r s rank : Nat} {x : ℚ}

theorem Rounds.le (h : Rounds rank x) : (interval rank).1 ≤ x ∧ x ≤ (interval rank).2 := by
  unfold Rounds at h
  split at h
  · exact h
  · exact ⟨h.1.le, h.2.le⟩

/-- No number rounds to a rank and to a greater one. -/
theorem Rounds.not_lt (hr : Rounds (r + 1) x) (hs : Rounds (s + 1) x) : ¬ r < s := by
  intro hlt
  have hhigh := hr.le.2
  have hlow := hs.le.1
  rw [interval_succ] at hhigh hlow
  have hunits : units (r + 1) ≤ units s := units_strictMono.monotone hlt
  have hunits' : units (r + 2) ≤ units (s + 1) := units_strictMono.monotone (Nat.succ_le_succ hlt)
  -- so the two ranks are neighbours, and the number is halfway between them
  have hends : 2 * (units s + units (s + 1)) ≤ 2 * (units (r + 1) + units (r + 2)) := by
    exact_mod_cast hlow.trans hhigh
  have hs' : s = r + 1 := by
    by_contra hne
    have := units_strictMono (show r + 1 < s by omega)
    omega
  subst hs'
  unfold Rounds at hr hs
  rw [significand_mod_two, interval_succ] at hr hs
  split at hr
  · rw [if_neg (by omega)] at hs
    exact absurd (hr.2.trans_lt hs.1) (lt_irrefl _)
  · split at hs
    · exact absurd (hr.2.trans_le hs.1) (lt_irrefl _)
    · omega

/-- A number rounds to one rank only. -/
theorem Rounds.unique (hr : Rounds r x) (hs : Rounds s x) (hrpos : 0 < r) (hspos : 0 < s) :
    r = s := by
  obtain ⟨r, rfl⟩ := Nat.exists_eq_succ_of_ne_zero hrpos.ne'
  obtain ⟨s, rfl⟩ := Nat.exists_eq_succ_of_ne_zero hspos.ne'
  have hle := hr.not_lt hs
  have hge := hs.not_lt hr
  omega

end Shortest

/-! ## The decimal of a rank -/

/-- The exact value of a decimal. -/
def Decimal.value (d : Decimal) : ℚ := d.digits * 10 ^ d.exponent

/-- How many of the least positive numbers make one. -/
def fineness : Nat := 1 <<< 1074

theorem shiftLeft_eq_mul_fineness (n : Nat) : n <<< 1074 = n * fineness := by
  -- with the name, the power is not computed
  obtain ⟨places, hplaces⟩ : ∃ places, places = 1074 := ⟨_, rfl⟩
  rw [fineness, ← hplaces, Nat.shiftLeft_eq, Nat.one_shiftLeft]

/-- A number in quarters of the least spacing. -/
def quarters (x : ℚ) : ℚ := 4 * x * fineness

namespace Shortest

variable {rank c : Nat} {p : Int}

/-- A power of ten as a quotient. -/
theorem zpow_mul_den (p : Int) :
    (10 : ℚ) ^ p * (Nat.pow 10 (-p).toNat : ℕ) = (Nat.pow 10 p.toNat : ℕ) := by
  have hsplit : p + ((-p).toNat : ℤ) = (p.toNat : ℤ) := by omega
  rw [Nat.pow_eq, Nat.pow_eq, Nat.cast_pow, Nat.cast_pow, Nat.cast_ofNat, ← zpow_natCast,
    ← zpow_natCast, ← zpow_add₀ (by decide), hsplit]

/-- The check on natural numbers is the comparison of the decimal with the interval. -/
theorem reads_iff :
    reads rank c (Nat.pow 10 p.toNat) (Nat.pow 10 (-p).toNat) ↔
      Rounds rank (quarters (Decimal.mk c p).value) := by
  have hpower := zpow_mul_den p
  have hden : (0 : ℚ) < (Nat.pow 10 (-p).toNat : ℕ) :=
    Nat.cast_pos.mpr (Nat.pow_pos (by decide))
  unfold reads Rounds
  rw [shiftLeft_eq_mul_fineness]
  generalize Nat.pow 10 (-p).toNat = den at *
  generalize Nat.pow 10 p.toNat = num at *
  have hx : quarters (Decimal.mk c p).value * den = (4 * c * num * fineness : ℕ) := by
    unfold quarters Decimal.value
    push_cast
    rw [← hpower]
    ring
  generalize quarters (Decimal.mk c p).value = x at *
  generalize 4 * c * num * fineness = y at *
  have hle (n : Nat) : (n : ℚ) ≤ x ↔ n * den ≤ y := by
    rw [← mul_le_mul_iff_left₀ hden, hx]
    exact_mod_cast Iff.rfl
  have hge (n : Nat) : x ≤ n ↔ y ≤ n * den := by
    rw [← mul_le_mul_iff_left₀ hden, hx]
    exact_mod_cast Iff.rfl
  dsimp only
  split
  · rw [Bool.and_eq_true, decide_eq_true_eq, decide_eq_true_eq, hle, hge]
  · rw [Bool.and_eq_true, decide_eq_true_eq, decide_eq_true_eq, ← not_le, ← not_le, ← not_le,
      ← not_le, hle, hge]

/-- A point of a grid that is chosen for a rank rounds to the rank. -/
theorem reads_onGrid (h : onGrid rank p = some c) :
    0 < c ∧ reads rank c (Nat.pow 10 p.toNat) (Nat.pow 10 (-p).toNat) := by
  unfold onGrid at h
  dsimp only at h
  generalize units rank * Nat.pow 10 (-p).toNat / Nat.pow 10 p.toNat <<< 1074 = low at h
  -- the neighbour that is chosen was found to round to the rank
  have hlower
      (hlow : 0 < low && reads rank low (Nat.pow 10 p.toNat) (Nat.pow 10 (-p).toNat)) :
      0 < low ∧ reads rank low (Nat.pow 10 p.toNat) (Nat.pow 10 (-p).toNat) := by
    simpa only [Bool.and_eq_true, decide_eq_true_eq] using hlow
  split at h
  · rename_i hboth
    obtain ⟨hlow, hupper⟩ := Bool.and_eq_true_iff.mp hboth
    split at h
    · cases h
      exact hlower hlow
    · cases h
      exact ⟨Nat.succ_pos low, hupper⟩
  split at h
  · rename_i hlow
    cases h
    exact hlower hlow
  split at h
  · rename_i hupper
    cases h
    exact ⟨Nat.succ_pos low, hupper⟩
  · cases h

/-- Halves are decimals: `u / 2 ^ n` has `n` digits after the point. -/
theorem value_halves (u n : Nat) :
    (Decimal.mk (u * Nat.pow 5 n) (-(n : ℤ))).value * (1 <<< n : ℕ) = u := by
  have hten : (10 : ℚ) ^ n = 5 ^ n * 2 ^ n := by rw [← mul_pow]; norm_num
  have hpos : (5 : ℚ) ^ n * 2 ^ n ≠ 0 := by positivity
  rw [Decimal.value, Nat.pow_eq, Nat.one_shiftLeft, zpow_neg, zpow_natCast, hten]
  push_cast
  field_simp

/-- On the finest grid stands the number itself. -/
theorem search_zero (h : 0 < rank) :
    0 < (search rank 0).digits ∧ quarters (search rank 0).value = (4 * units rank : ℕ) := by
  obtain ⟨places, hplaces⟩ : ∃ places, places = 1074 := ⟨_, rfl⟩
  have hexponent : (-1074 : ℤ) = -(places : ℤ) := by omega
  rw [search, hexponent, quarters, fineness, ← hplaces, mul_assoc, value_halves, Nat.cast_mul,
    Nat.cast_ofNat]
  exact ⟨Nat.mul_pos (units_pos h) (Nat.pow_pos (by decide)), rfl⟩

/-- The number itself rounds to its rank. -/
theorem rounds_units (h : 0 < rank) : Rounds rank (4 * units rank : ℕ) := by
  obtain ⟨r, rfl⟩ := Nat.exists_eq_add_one_of_ne_zero h.ne'
  have hbelow : units r < units (r + 1) := units_strictMono (Nat.lt_succ_self r)
  have habove : units (r + 1) < units (r + 2) := units_strictMono (Nat.lt_succ_self (r + 1))
  have hinside : ((2 * (units r + units (r + 1)) : ℕ) : ℚ) < (4 * units (r + 1) : ℕ) ∧
      ((4 * units (r + 1) : ℕ) : ℚ) < (2 * (units (r + 1) + units (r + 2)) : ℕ) := by
    constructor <;> rw [Nat.cast_lt] <;> omega
  rw [Rounds, interval_succ]
  split
  · exact ⟨hinside.1.le, hinside.2.le⟩
  · exact hinside

theorem rounds_search (h : 0 < rank) (i : Nat) :
    0 < (search rank i).digits ∧ Rounds rank (quarters (search rank i).value) := by
  induction i with
  | zero =>
    obtain ⟨hpos, hvalue⟩ := search_zero h
    rw [hvalue]
    exact ⟨hpos, rounds_units h⟩
  | succ i ih =>
    rw [search]
    split
    · rename_i c hc
      obtain ⟨hpos, hreads⟩ := reads_onGrid hc
      exact ⟨hpos, reads_iff.mp hreads⟩
    · exact ih

end Shortest

/-- The shortest decimal of a rank is positive and rounds to the rank. -/
theorem rounds_shortest {rank : Nat} (h : 0 < rank) :
    0 < (shortest rank).digits ∧ Shortest.Rounds rank (quarters (shortest rank).value) :=
  Shortest.rounds_search h _

/-- The exact magnitude of the digits that are written for a rank. -/
def written (rank : Nat) : ℚ := if rank = 0 then 0 else (shortest rank).value

/-- Different magnitudes are written with different digits. -/
theorem written_injective : Function.Injective written := by
  have hpos {rank : Nat} (h : 0 < rank) : 0 < (shortest rank).value := by
    have hdigits : (0 : ℚ) < (shortest rank).digits := Nat.cast_pos.mpr (rounds_shortest h).1
    exact mul_pos hdigits (zpow_pos (by decide) _)
  intro r s h
  unfold written at h
  by_cases hr : r = 0
  · by_cases hs : s = 0
    · rw [hr, hs]
    · rw [if_pos hr, if_neg hs] at h
      exact absurd h (hpos (Nat.pos_of_ne_zero hs)).ne
  · by_cases hs : s = 0
    · rw [if_neg hr, if_pos hs] at h
      exact absurd h (hpos (Nat.pos_of_ne_zero hr)).ne'
    · rw [if_neg hr, if_neg hs] at h
      have hrounds := (rounds_shortest (Nat.pos_of_ne_zero hr)).2
      rw [h] at hrounds
      exact hrounds.unique (rounds_shortest (Nat.pos_of_ne_zero hs)).2 (Nat.pos_of_ne_zero hr)
        (Nat.pos_of_ne_zero hs)

end FieldSchema.Binary64
