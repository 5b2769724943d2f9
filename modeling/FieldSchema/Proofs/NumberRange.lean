import FieldSchema.Json.Node
import FieldSchema.Proofs.ShortestDigits

/-!
# Numbers read from JSON are finite

A numeral of JSON text is computed from a significand below `2^64`. Scaling it down keeps it below,
so no step overflows, and scaling it up is given up where it would.

* `Binary64.rankOf_le`, `Binary64.le_rankOf`: rounding a quotient does not pass a power of two.
* `Binary64.Within`: a finite number of at most a power of two, as a quotient of at most that is
  rounded to (`Binary64.within_ofRatio`). `Binary64.Within.div`: dividing by what is not less than one
  keeps it so.
* `Json.Number.InRange`: a whole number below `2^64` or a finite number.
  `Json.Number.inRange_of_read?`, `Json.Token.inRange_of_scan`: the numbers in a text are in range.
-/

namespace FieldSchema

namespace Binary64

variable {negative : Bool} {n d e rank : Nat} {x y : Binary64}

/-! ## Rounding a quotient -/

theorem roundHalfEven_le (n d : Nat) : roundHalfEven n d ≤ n / d + 1 := by
  unfold roundHalfEven
  dsimp only
  split <;> omega

theorem le_roundHalfEven (n d : Nat) : n / d ≤ roundHalfEven n d := by
  unfold roundHalfEven
  dsimp only
  split <;> omega

/-- What is no more than a number of units is not rounded up beyond it. -/
theorem roundHalfEven_le_of_le {c : Nat} (hd : 0 < d) (h : n ≤ c * d) : roundHalfEven n d ≤ c := by
  have hquotient : n / d ≤ c := Nat.div_le_of_le_mul (by rw [Nat.mul_comm]; exact h)
  rcases Nat.lt_or_eq_of_le hquotient with hlt | heq
  · have hle := roundHalfEven_le n d
    omega
  · -- the quotient is the greatest one, so nothing is left over
    have hexact : n % d = 0 := by
      have hdiv := Nat.div_add_mod n d
      rw [heq, Nat.mul_comm] at hdiv
      omega
    unfold roundHalfEven
    rw [hexact, heq]
    simp [hd]

/-- The rank of a quotient in the least units, before it is known to be finite. -/
def rankOf (scaled d : Nat) : Nat :=
  let k := (scaled / d).log2 - 52
  k * leastNormal + roundHalfEven scaled (d <<< k)

/-- Powers of two are taken apart with a name for `leastNormal`, so that none is computed. -/
theorem exists_leastNormal : ∃ b, leastNormal = b ∧ b = 2 ^ 52 := ⟨_, rfl, by norm_num⟩

/-- Up to a power of two, ranks are at most that of the power. -/
theorem rankOf_le {scaled t : Nat} (hd : 0 < d) (h : scaled ≤ 2 ^ (t + 52) * d) :
    rankOf scaled d ≤ (t + 1) * leastNormal := by
  obtain ⟨b, hb, hpow⟩ := exists_leastNormal
  rw [rankOf, hb]
  have hlog : (scaled / d).log2 ≤ t + 52 := by
    by_cases hzero : scaled / d = 0
    · rw [hzero, Nat.log2_zero]
      exact Nat.zero_le _
    · have hquotient : scaled / d ≤ 2 ^ (t + 52) :=
        Nat.div_le_of_le_mul (by rw [Nat.mul_comm]; exact h)
      have hself := Nat.le_trans (Nat.log2_self_le hzero) hquotient
      exact (Nat.pow_le_pow_iff_right (by decide)).mp hself
  have hlt : scaled / d < 2 ^ ((scaled / d).log2 + 1) := Nat.lt_log2_self
  generalize (scaled / d).log2 = log at hlog hlt ⊢
  rw [Nat.shiftLeft_eq]
  have hdk : 0 < d * 2 ^ (log - 52) := Nat.mul_pos hd (Nat.two_pow_pos _)
  by_cases htop : log - 52 = t
  · have hround : roundHalfEven scaled (d * 2 ^ (log - 52)) ≤ b := by
      apply roundHalfEven_le_of_le hdk
      calc scaled ≤ 2 ^ (t + 52) * d := h
        _ = b * (d * 2 ^ (log - 52)) := by rw [htop, hpow, Nat.pow_add]; ring
    rw [htop] at hround ⊢
    rw [Nat.add_mul, Nat.one_mul]
    omega
  · -- with a smaller spacing, the significand still has 53 bits
    have hround : roundHalfEven scaled (d * 2 ^ (log - 52)) ≤ 2 * b := by
      apply roundHalfEven_le_of_le hdk
      have hle : scaled ≤ 2 ^ (log + 1) * d := Nat.le_of_lt (Nat.lt_mul_of_div_lt hlt hd)
      have hpows : 2 ^ (log + 1) ≤ 2 ^ (log - 52 + 1 + 52) :=
        Nat.pow_le_pow_right (by decide) (by omega)
      calc scaled ≤ 2 ^ (log + 1) * d := hle
        _ ≤ 2 ^ (log - 52 + 1 + 52) * d := Nat.mul_le_mul_right d hpows
        _ = 2 * b * (d * 2 ^ (log - 52)) := by rw [hpow, Nat.pow_add, Nat.pow_succ]; ring
    have hmul := Nat.mul_le_mul_right b (show log - 52 + 2 ≤ t + 1 by omega)
    rw [Nat.add_mul] at hmul
    omega

/-- From a power of two on, ranks are at least that of the power. -/
theorem le_rankOf {scaled t : Nat} (hd : 0 < d) (h : 2 ^ (t + 52) * d ≤ scaled) :
    (t + 1) * leastNormal ≤ rankOf scaled d := by
  obtain ⟨b, hb, hpow⟩ := exists_leastNormal
  rw [rankOf, hb]
  have hquotient : 2 ^ (t + 52) ≤ scaled / d := (Nat.le_div_iff_mul_le hd).mpr h
  have hne : scaled / d ≠ 0 := by
    have hpos := Nat.two_pow_pos (t + 52)
    omega
  have hlog : t + 52 ≤ (scaled / d).log2 := (Nat.le_log2 hne).mpr hquotient
  have hself : 2 ^ (scaled / d).log2 ≤ scaled / d := Nat.log2_self_le hne
  generalize (scaled / d).log2 = log at hlog hself ⊢
  have hround : b ≤ roundHalfEven scaled (d <<< (log - 52)) := by
    apply Nat.le_trans _ (le_roundHalfEven _ _)
    rw [Nat.shiftLeft_eq, ← Nat.div_div_eq_div_mul, Nat.le_div_iff_mul_le (Nat.two_pow_pos _), hpow,
      ← Nat.pow_add]
    rwa [show 52 + (log - 52) = log by omega]
  have hmul := Nat.mul_le_mul_right b (show t ≤ log - 52 by omega)
  rw [Nat.add_mul, Nat.one_mul]
  omega

/-- The magnitude of the rank of a power of two. -/
theorem units_power (t : Nat) : units ((t + 1) * leastNormal) = 2 ^ (t + 52) := by
  have hsignificand : significand ((t + 1) * leastNormal) = leastNormal := by
    have hle : leastNormal ≤ (t + 1) * leastNormal := Nat.le_mul_of_pos_left _ (Nat.succ_pos t)
    rw [significand, if_neg (Nat.not_lt.mpr hle), Nat.mul_mod_left, Nat.add_zero]
  have hdoublings : doublings ((t + 1) * leastNormal) = t := by
    rw [doublings, Nat.mul_div_cancel _ (by decide), Nat.add_sub_cancel]
  obtain ⟨b, hb, hpow⟩ := exists_leastNormal
  rw [units_eq, hsignificand, hdoublings, hb, hpow, ← Nat.pow_add, Nat.add_comm]

/-! ## Numbers up to a power of two -/

/-- A finite number of a magnitude of at most `2^e`. -/
def Within (e : Nat) : Binary64 → Prop
  | .finite _ rank _ => rank ≤ (e + 1023) * leastNormal
  | _ => False

theorem Within.isFinite (h : x.Within e) : x.isFinite := by
  cases x with
  | finite => rfl
  | _ => cases h

theorem within_zero (e : Nat) (negative : Bool) : (zero negative).Within e := Nat.zero_le _

theorem exists_fineness : ∃ t, t = 1022 ∧ fineness = 2 ^ (t + 52) := by
  obtain ⟨t, ht⟩ : ∃ t, t = 1022 := ⟨_, rfl⟩
  have hplaces : 1074 = t + 52 := by omega
  refine ⟨t, ht, ?_⟩
  rw [fineness, hplaces, Nat.one_shiftLeft]

theorem ofRatio_eq (negative : Bool) (n d : Nat) :
    ofRatio negative n d =
      if h : rankOf (n * fineness) d < 0x7ff0000000000000 then
        .finite negative (rankOf (n * fineness) d) h
      else .infinity negative := by
  simp only [← shiftLeft_eq_mul_fineness]
  rfl

/-- A quotient of at most a power of two is rounded to at most that. -/
theorem within_ofRatio (he : e ≤ 1023) (hd : 0 < d) (h : n ≤ 2 ^ e * d) :
    (ofRatio negative n d).Within e := by
  have hrank : rankOf (n * fineness) d ≤ (e + 1023) * leastNormal := by
    obtain ⟨t, ht, hfineness⟩ := exists_fineness
    rw [show e + 1023 = e + t + 1 by omega]
    apply rankOf_le hd
    calc n * fineness ≤ 2 ^ e * d * fineness := Nat.mul_le_mul_right _ h
      _ = 2 ^ (e + t + 52) * d := by rw [hfineness, Nat.add_assoc, Nat.pow_add]; ring
  have hfinite : rankOf (n * fineness) d < 0x7ff0000000000000 := by
    have hmul := Nat.mul_le_mul_right leastNormal (show e + 1023 ≤ 2046 by omega)
    rw [leastNormal] at hmul hrank
    omega
  rw [ofRatio_eq, dif_pos hfinite]
  exact hrank

/-- A number that is not less than one, or is not finite. -/
def AtLeastOne : Binary64 → Prop
  | .finite _ rank _ => 1023 * leastNormal ≤ rank
  | .infinity _ => True
  | .nan => False

theorem atLeastOne_ofNat (h : 0 < n) : (ofNat n).AtLeastOne := by
  have hrank : 1023 * leastNormal ≤ rankOf (n * fineness) 1 := by
    obtain ⟨t, ht, hfineness⟩ := exists_fineness
    rw [show 1023 = t + 1 by omega]
    apply le_rankOf Nat.one_pos
    rw [Nat.mul_one, hfineness]
    exact Nat.le_mul_of_pos_left _ h
  rw [ofNat, ofRatio_eq]
  split
  · exact hrank
  · trivial

/-- Division by what is not less than one makes no magnitude greater. -/
theorem Within.div (he : e ≤ 1023) (hx : x.Within e) (hy : y.AtLeastOne) : (x.div y).Within e := by
  cases x with
  | nan => cases hx
  | infinity => cases hx
  | finite s r hr =>
    cases y with
    | nan => cases hy
    | infinity t => exact within_zero e _
    | finite t q hq =>
      have hle : 1023 * leastNormal ≤ q := hy
      have hq0 : q ≠ 0 := by
        rw [leastNormal] at hle
        omega
      have hunits : units r ≤ 2 ^ e * units q := by
        obtain ⟨t, ht, -⟩ := exists_fineness
        have hrank : r ≤ (e + t + 1) * leastNormal := by
          rw [ht]
          exact hx
        have hone : (t + 1) * leastNormal ≤ q := by
          rw [ht]
          exact hle
        calc units r ≤ 2 ^ (e + t + 52) := units_power (e + t) ▸ units_strictMono.monotone hrank
          _ = 2 ^ e * 2 ^ (t + 52) := by rw [Nat.add_assoc, Nat.pow_add]
          _ ≤ 2 ^ e * units q :=
            Nat.mul_le_mul_left _ (units_power t ▸ units_strictMono.monotone hone)
      rw [Binary64.div, if_pos hq0]
      exact within_ofRatio he (units_pos (Nat.pos_of_ne_zero hq0)) hunits

end Binary64

/-! ## Numerals -/

namespace Json

/-- A whole number of at most 64 bits, or a finite number. -/
def Number.InRange : Number → Prop
  | .integer n => n.natAbs < UInt64.size
  | .float x => x.isFinite

namespace Literal

variable {x : Binary64} {significand : Nat} {l : Literal} {n : Number}

theorem enter_lt (h : significand < UInt64.size) (ds : List Char) :
    (enter significand ds).1 < UInt64.size := by
  fun_induction enter significand ds with
  | case1 => exact h
  | case2 _ _ _ _ hnext ih => exact ih hnext
  | case3 => exact h

theorem within_ofNat (h : significand < UInt64.size) : (Binary64.ofNat significand).Within 64 := by
  apply Binary64.within_ofRatio (by decide) Nat.one_pos
  rw [Nat.mul_one]
  exact Nat.le_of_lt h

theorem within_scaleDown {e : Nat} (he : e ≤ 1023) (hx : x.Within e) (k : Nat) :
    (scaleDown x k).Within e := by
  have hpower (x : Binary64) (hx : x.Within e) (k : Nat) :
      (x.div (.ofNat (Nat.pow 10 k))).Within e :=
    hx.div he (Binary64.atLeastOne_ofNat (Nat.pow_pos (by decide)))
  fun_induction scaleDown x k with
  | case1 x k _ => exact hpower x hx k
  | case2 x k _ _ => exact hx
  | case3 x k _ _ ih =>
    apply ih
    apply hpower x hx

theorem isFinite_scale? {exponent : Int} (h : significand < UInt64.size)
    (hx : scale? significand exponent = some x) : x.isFinite := by
  unfold scale? at hx
  dsimp only at hx
  split at hx
  · cases hx
    exact (within_scaleDown (by decide) (within_ofNat h) _).isFinite
  · split at hx
    · split at hx
      · rename_i hfinite
        cases hx
        exact hfinite
      · cases hx
    · split at hx
      · cases hx
        exact (within_ofNat h).isFinite
      · cases hx

theorem isFinite_signed (h : x.isFinite) : (l.signed x).isFinite := by
  unfold signed
  split
  · cases x with
    | finite => rfl
    | _ => cases h
  · exact h

theorem inRange_integer (h : significand < UInt64.size) : (l.integer significand).InRange := by
  unfold integer
  split
  · exact h
  · split
    · exact isFinite_signed (within_ofNat h).isFinite
    · show (-(significand : Int)).natAbs < UInt64.size
      rw [Int.natAbs_neg]
      exact h

/-- The value of a numeral is in range. -/
theorem inRange_of_value? (h : l.value? = some n) : n.InRange := by
  unfold value? at h
  have hwhole := enter_lt (show 0 < UInt64.size by decide) l.whole
  generalize enter 0 l.whole = entered at h hwhole
  obtain ⟨significand, late⟩ := entered
  dsimp only at h hwhole
  split at h
  · cases h
    exact inRange_integer hwhole
  · obtain ⟨x, hx, rfl⟩ := Option.map_eq_some_iff.mp h
    exact isFinite_signed (isFinite_scale? (enter_lt hwhole _) hx)

end Literal

variable {n : Number} {cs rest : List Char}

theorem Number.inRange_of_read? (h : Number.read? cs = some (n, rest)) : n.InRange := by
  simp only [Number.read?, Option.bind_eq_bind, Option.bind_eq_some_iff, Option.pure_def,
    Option.some.injEq, Prod.mk.injEq, Prod.exists] at h
  obtain ⟨l, _, -, k, hvalue, rfl, rfl⟩ := h
  exact Literal.inRange_of_value? hvalue

/-- The numbers among the tokens of a text are in range. -/
theorem Token.inRange_of_scan (h : Token.number n ∈ Token.scan cs) : n.InRange := by
  fun_induction Token.scan cs with
  | case1 => cases h
  | case12 | case15 => exact absurd (List.mem_singleton.mp h) nofun
  | case13 =>
    rename_i ih
    exact ih h
  | case14 =>
    rename_i m _ hread ih
    rcases List.mem_cons.mp h with heq | h
    · cases heq
      exact Number.inRange_of_read? hread
    · exact ih h
  | _ =>
    -- a token that is no number stands before the others
    rename_i ih
    exact ih ((List.mem_cons.mp h).resolve_left nofun)

end Json

end FieldSchema
