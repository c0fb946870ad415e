import BackupHistory.Binary64.Shortest

namespace BackupHistory

/-!
# Reading measured numbers back

The numeral that a number is written with is read as that number. The search for
a short one takes none that is not, and where it finds none the number is written
out in full, which is exact. Integers of sixty-four bits are in the range of
measured numbers, so a value that holds them can be held as a whole.
-/

section Rounding

theorem roundQuotient_mul (multiple : Nat) {denominator : Nat}
    (positive : 0 < denominator) :
    roundQuotient (multiple * denominator) denominator = multiple := by
  unfold roundQuotient
  simp only [Nat.mul_mod_left, Nat.mul_zero, positive, ↓reduceIte]
  exact Nat.mul_div_cancel multiple positive

theorem roundQuotient_le (numerator denominator : Nat) :
    roundQuotient numerator denominator ≤ numerator / denominator + 1 := by
  unfold roundQuotient
  dsimp only
  split
  · omega
  · split <;> omega

end Rounding

namespace Binary64

/-- A count of units in the form that a magnitude gives it: fifty-three bits and
the power of two by which they are shifted. -/
structure Shifted (units significand shift : Nat) : Prop where
  units_eq : units = significand * Nat.pow 2 shift
  below : significand < Nat.pow 2 53
  normal : shift = 0 ∨ Nat.pow 2 52 ≤ significand

/-- A magnitude counts its significand and, above it, its shift. -/
theorem exists_shifted (number : Binary64) :
    ∃ significand shift,
      Shifted number.units significand shift ∧
        number.magnitude = shift * Nat.pow 2 52 + significand := by
  have double : Nat.pow 2 53 = Nat.pow 2 52 + Nat.pow 2 52 := rfl
  have positive : 0 < Nat.pow 2 52 := by decide
  have split := Nat.div_add_mod number.magnitude (Nat.pow 2 52)
  have fits := Nat.mod_lt number.magnitude positive
  rw [Nat.mul_comm] at split
  cases field : number.magnitude / Nat.pow 2 52 with
  | zero =>
      refine ⟨number.magnitude % Nat.pow 2 52, 0, ⟨?_, ?_, .inl rfl⟩, ?_⟩
      · unfold units
        simp only [field, ↓reduceIte]
        exact (Nat.mul_one _).symm
      · omega
      · rw [field] at split
        exact split.symm
  | succ shift =>
      refine
        ⟨Nat.pow 2 52 + number.magnitude % Nat.pow 2 52, shift,
          ⟨?_, ?_, .inr (Nat.le_add_right ..)⟩, ?_⟩
      · unfold units
        simp only [field, Nat.succ_ne_zero, ↓reduceIte,
          Nat.add_sub_cancel]
      · omega
      · rw [field, Nat.succ_mul] at split
        omega

/-- The bits of a shifted significand are those of both. -/
theorem log2_shifted
    {significand : Nat}
    (shift : Nat)
    (normal : Nat.pow 2 52 ≤ significand)
    (below : significand < Nat.pow 2 53) :
    (significand * Nat.pow 2 shift).log2 = 52 + shift := by
  have positive : 0 < Nat.pow 2 shift := Nat.pow_pos Nat.two_pos
  have nonzero : significand * Nat.pow 2 shift ≠ 0 :=
    Nat.ne_of_gt
      (Nat.mul_pos (Nat.lt_of_lt_of_le (by decide) normal) positive)
  rw [Nat.log2_eq_iff nonzero]
  constructor
  · rw [Nat.pow_add]
    exact Nat.mul_le_mul_right (Nat.pow 2 shift) normal
  · rw [show 52 + shift + 1 = 53 + shift by omega, Nat.pow_add]
    exact Nat.mul_lt_mul_of_pos_right below positive

/-- The bits of a quotient that is a count of units. -/
theorem nearestBits_of_shifted
    {numerator denominator units significand shift : Nat}
    (positive : 0 < denominator)
    (exact : numerator * Nat.pow 2 unitPower = units * denominator)
    (shifted : Shifted units significand shift) :
    nearestBits numerator denominator =
      shift * Nat.pow 2 52 + significand := by
  obtain ⟨rfl, below, normal⟩ := shifted
  have whole :
      numerator * Nat.pow 2 unitPower / denominator =
        significand * Nat.pow 2 shift := by
    rw [exact]
    exact Nat.mul_div_cancel _ positive
  have shiftFound :
      (if significand * Nat.pow 2 shift < Nat.pow 2 53 then
        0
      else
        (significand * Nat.pow 2 shift).log2 - 52) = shift := by
    cases shift with
    | zero =>
        refine if_pos ?_
        rw [show Nat.pow 2 0 = 1 from rfl, Nat.mul_one]
        exact below
    | succ shift =>
        have isNormal := normal.resolve_left (Nat.succ_ne_zero shift)
        have large :
            Nat.pow 2 53 ≤ significand * Nat.pow 2 (shift + 1) := by
          have two : 2 ≤ Nat.pow 2 (shift + 1) :=
            Nat.le_mul_of_pos_left 2 (Nat.pow_pos Nat.two_pos)
          exact Nat.mul_le_mul isNormal two
        rw [if_neg (Nat.not_lt.2 large), log2_shifted _ isNormal below]
        omega
  unfold nearestBits
  simp only [whole, shiftFound]
  rw [exact, Nat.mul_assoc, Nat.mul_comm (Nat.pow 2 shift),
    roundQuotient_mul]
  exact Nat.mul_pos positive (Nat.pow_pos Nat.two_pos)

/-- Multiples of a power of five are whole multiples of a power of a tenth. -/
theorem mul_pow_five_mul_pow_two (units power : Nat) :
    units * Nat.pow 5 power * Nat.pow 10 0 * Nat.pow 2 power =
      units * Nat.pow 10 power := by
  have ten : Nat.pow 5 power * Nat.pow 2 power = Nat.pow 10 power :=
    (Nat.mul_pow 5 2 power).symm
  rw [show Nat.pow 10 0 = 1 from rfl, Nat.mul_one, Nat.mul_assoc, ten]

theorem le_log2_mul_pow_five {units : Nat} (positive : 0 < units)
    (power : Nat) :
    power ≤ (units * Nat.pow 5 power).log2 := by
  have nonzero : units * Nat.pow 5 power ≠ 0 :=
    Nat.ne_of_gt (Nat.mul_pos positive (Nat.pow_pos (by decide)))
  rw [Nat.le_log2 nonzero]
  exact
    Nat.le_trans (Nat.pow_le_pow_left (by decide) power)
      (Nat.le_mul_of_pos_left (Nat.pow 5 power) positive)

theorem units_pos {number : Binary64} (nonzero : number.magnitude ≠ 0) :
    0 < number.units := by
  obtain ⟨significand, shift, ⟨units, _, normal⟩, magnitude⟩ :=
    exists_shifted number
  rw [units]
  refine Nat.mul_pos ?_ (Nat.pow_pos Nat.two_pos)
  rcases normal with rfl | isNormal
  · omega
  · exact Nat.lt_of_lt_of_le (by decide) isNormal

theorem ofQuotient?_of_bits
    {number : Binary64}
    {numerator denominator : Nat}
    (bits : nearestBits numerator denominator = number.magnitude) :
    ofQuotient? number.negative numerator denominator = some number := by
  obtain ⟨negative, magnitude, finite⟩ := number
  subst bits
  exact dif_pos finite

/-- A count of units over the power of ten that they are taken from. -/
theorem ofQuotient?_units (number : Binary64) (power : Nat)
    (isUnit : power = unitPower) :
    ofQuotient? number.negative
        (number.units * Nat.pow 5 power * Nat.pow 10 0)
        (Nat.pow 10 power) =
      some number := by
  obtain ⟨significand, shift, shifted, magnitude⟩ := exists_shifted number
  apply ofQuotient?_of_bits
  rw [magnitude]
  refine nearestBits_of_shifted (Nat.pow_pos (by decide)) ?_ shifted
  rw [← isUnit]
  exact mul_pow_five_mul_pow_two number.units power

/-- The numeral that is written in full is read as the number. -/
theorem ofNumeral?_exactNumeral
    {number : Binary64}
    (nonzero : number.magnitude ≠ 0) :
    ofNumeral? number.exactNumeral = some number := by
  have coefficient :
      number.exactNumeral.coefficient =
        number.units * Nat.pow 5 unitPower :=
    rfl
  have power : number.exactNumeral.power = -(unitPower : Int) :=
    Int.sub_zero _
  have large := le_log2_mul_pow_five (units_pos nonzero) unitPower
  have positive : number.units * Nat.pow 5 unitPower ≠ 0 := by
    intro zero
    rw [zero] at large
    exact absurd large (by decide)
  have scale :
      (-(unitPower : Int)).toNat = 0 ∧
        (- -(unitPower : Int)).toNat = unitPower := by
    omega
  unfold ofNumeral? ofDecimal?
  rw [coefficient, power, if_neg positive, if_neg (by decide), if_neg ?_,
    scale.1, scale.2]
  · exact ofQuotient?_units number unitPower rfl
  · unfold decimalBound
    omega

theorem ofNumeral?_zeroNumeral (negative : Bool) :
    ofNumeral? (zeroNumeral negative) = some (zero negative) :=
  rfl

/-- A number is read from the numeral that it is written with. -/
theorem ofNumeral?_toNumeral (number : Binary64) :
    ofNumeral? number.toNumeral = some number := by
  unfold toNumeral
  by_cases isZero : number.magnitude = 0
  · rw [if_pos isZero, ofNumeral?_zeroNumeral]
    obtain ⟨negative, magnitude, finite⟩ := number
    subst isZero
    rfl
  · rw [if_neg isZero]
    cases found : number.candidates.find? fun numeral =>
        decide (ofNumeral? numeral = some number) with
    | none => exact ofNumeral?_exactNumeral isZero
    | some numeral =>
        have reads := List.find?_some found
        exact of_decide_eq_true reads

/-- A quotient has bits in the binade of its whole part or just past it. -/
theorem nearestBits_le (numerator denominator : Nat) :
    nearestBits numerator denominator ≤
      ((numerator * Nat.pow 2 unitPower / denominator).log2 - 52) *
          Nat.pow 2 52 +
        Nat.pow 2 53 := by
  unfold nearestBits
  dsimp only
  generalize numerator * Nat.pow 2 unitPower = scaled
  generalize isShift :
    (if scaled / denominator < Nat.pow 2 53 then
      0
    else
      (scaled / denominator).log2 - 52) = shift
  have shiftLe : shift ≤ (scaled / denominator).log2 - 52 := by
    rw [← isShift]
    split <;> omega
  have power : 0 < Nat.pow 2 shift := Nat.pow_pos Nat.two_pos
  have significand :
      scaled / denominator / Nat.pow 2 shift < Nat.pow 2 53 := by
    rw [Nat.div_lt_iff_lt_mul power]
    by_cases small : scaled / denominator < Nat.pow 2 53
    · exact Nat.lt_of_lt_of_le small (Nat.le_mul_of_pos_right _ power)
    · rw [if_neg small] at isShift
      have powers :
          Nat.pow 2 (53 + shift) = Nat.pow 2 53 * Nat.pow 2 shift :=
        Nat.pow_add 2 53 shift
      rw [← powers]
      exact
        Nat.lt_of_lt_of_le Nat.lt_log2_self
          (Nat.pow_le_pow_right Nat.two_pos (by omega))
  have rounded :=
    roundQuotient_le scaled (denominator * Nat.pow 2 shift)
  rw [← Nat.div_div_eq_div_mul] at rounded
  exact
    Nat.add_le_add (Nat.mul_le_mul_right (Nat.pow 2 52) shiftLe)
      (Nat.le_trans rounded significand)

theorem log2_mul_two_pow_lt
    {number : Nat}
    (positive : 0 < number)
    (fits : number < Nat.pow 2 64)
    (power : Nat) :
    (number * Nat.pow 2 power).log2 < 64 + power := by
  have isPositive : 0 < Nat.pow 2 power := Nat.pow_pos Nat.two_pos
  rw [Nat.log2_lt (Nat.ne_of_gt (Nat.mul_pos positive isPositive)),
    Nat.pow_add]
  exact Nat.mul_lt_mul_of_pos_right fits isPositive

/-- The bits of an integer of sixty-four bits are those of a finite number. -/
theorem nearestBits_lt {number : Nat} (positive : 0 < number)
    (fits : number < Nat.pow 2 64) :
    nearestBits number 1 < infinityBits := by
  have bits := nearestBits_le number 1
  have log := log2_mul_two_pow_lt positive fits unitPower
  rw [Nat.div_one] at bits
  have shift :
      (number * Nat.pow 2 unitPower).log2 - 52 ≤ 1086 := by
    revert log
    generalize (number * Nat.pow 2 unitPower).log2 = log
    unfold unitPower
    omega
  exact
    Nat.lt_of_le_of_lt
      (Nat.le_trans bits
        (Nat.add_le_add_right (Nat.mul_le_mul_right _ shift) _))
      (by decide)

/-- An integer of sixty-four bits is in the range of measured numbers. -/
theorem isSome_ofNumeral?_ofInt {number : Int}
    (fits : number.natAbs < Nat.pow 2 64) :
    (ofNumeral? (Numeral.ofInt number)).isSome := by
  have coefficient :
      (Numeral.ofInt number).coefficient = number.natAbs :=
    rfl
  have power : (Numeral.ofInt number).power = 0 :=
    rfl
  have scale :
      Nat.pow 10 (0 : Int).toNat = 1 ∧ Nat.pow 10 (-0 : Int).toNat = 1 :=
    ⟨rfl, rfl⟩
  unfold ofNumeral? ofDecimal?
  rw [coefficient, power]
  by_cases isZero : number.natAbs = 0
  · rw [if_pos isZero]
    rfl
  · rw [if_neg isZero, if_neg (by decide), if_neg ?_, scale.1, scale.2,
      Nat.mul_one]
    · unfold ofQuotient?
      rw [dif_pos (nearestBits_lt (Nat.pos_of_ne_zero isZero) fits)]
      rfl
    · unfold decimalBound
      omega

end Binary64

end BackupHistory
