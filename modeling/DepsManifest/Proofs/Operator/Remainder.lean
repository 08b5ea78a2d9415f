import DepsManifest.Operator.Arithmetic
import DepsManifest.Value.Json
import Mathlib.Data.Rat.Floor
/-! # Remainders of whole numbers

The operator `%` takes the remainder toward zero, which has the sign of the first number, and moves
it by the divisor if that has the other sign. `Value.modulo_ints` says what comes out, for all
numbers of 64 bits:

  * it fails for the divisor zero and for no other;
  * the result is `a - b * ⌊a / b⌋`, the remainder of a division that rounds down;
  * the result lies on the side of zero on which the divisor is, nearer to zero than the divisor;
  * neither of the two steps leaves the numbers of 64 bits.

The second and the third point are one: there is a single remainder with the property of the third
(`IsFloorRemainder.eq_sub_floor`), and the moved remainder has it (`isFloorRemainder_moved`). This
much is about integers.

That 64 bits are enough for both steps rests on the signs. A remainder is nearer to zero than the
divisor, and a divisor is only added to a remainder of the other sign, so that the sum lies between
the two (`fitsInt64_add`). The smallest number has no opposite among numbers of 64 bits, and so its
quotient by minus one has no place; the remainder has, and no quotient is ever taken.
-/
namespace DepsManifest.Value

/-- What a division of `a` by `b` that rounds down leaves over: `b` divides the rest of `a`, and
what is left lies on the side of zero on which `b` is, nearer to zero than `b`. -/
structure IsFloorRemainder (a b r : Int) : Prop where
  dvd : b ∣ a - r
  between : 0 ≤ r ∧ r < b ∨ b < r ∧ r ≤ 0

theorem IsFloorRemainder.eq_sub_floor {a b r : Int} (h : IsFloorRemainder a b r) :
    r = a - b * ⌊(a : ℚ) / b⌋ := by
  obtain ⟨q, hq⟩ := h.dvd
  have hb : (b : ℚ) ≠ 0 := by
    have := h.between
    exact_mod_cast (by omega : b ≠ 0)
  have ha : (a : ℚ) = b * q + r := by exact_mod_cast (by omega : a = b * q + r)
  have hquotient : (a : ℚ) / b = q + r / b := by
    rw [ha, add_div, mul_div_cancel_left₀ _ hb]
  have hfraction : 0 ≤ (r : ℚ) / b ∧ (r : ℚ) / b < 1 := by
    rcases h.between with ⟨hlow, hhigh⟩ | ⟨hlow, hhigh⟩
    · have hpos : (0 : ℚ) < b := by exact_mod_cast hlow.trans_lt hhigh
      exact ⟨div_nonneg (by exact_mod_cast hlow) hpos.le,
        (div_lt_one hpos).mpr (by exact_mod_cast hhigh)⟩
    · have hneg : (b : ℚ) < 0 := by exact_mod_cast hlow.trans_le hhigh
      exact ⟨div_nonneg_of_nonpos (by exact_mod_cast hhigh) hneg.le,
        (div_lt_one_of_neg hneg).mpr (by exact_mod_cast hlow)⟩
  have hfloor : ⌊(a : ℚ) / b⌋ = q := by
    rw [Int.floor_eq_iff, hquotient]
    exact ⟨by linarith [hfraction.1], by linarith [hfraction.2]⟩
  rw [hfloor, ← hq, sub_sub_cancel]

theorem natAbs_tmod_lt (a : Int) {b : Int} (hb : b ≠ 0) : (a.tmod b).natAbs < b.natAbs := by
  rw [Int.natAbs_tmod]
  exact Nat.mod_lt _ (Int.natAbs_pos.mpr hb)

theorem dvd_sub_tmod (a b : Int) : b ∣ a - a.tmod b := by
  refine ⟨a.tdiv b, ?_⟩
  have := Int.mul_tdiv_add_tmod a b
  omega

/-- A remainder toward zero becomes one of a division that rounds down if the divisor is added where
the signs differ. -/
theorem isFloorRemainder_moved (a : Int) {b : Int} (hb : b ≠ 0) : IsFloorRemainder a b
    (if a.tmod b ≠ 0 ∧ decide (a.tmod b < 0) ≠ decide (b < 0) then a.tmod b + b else a.tmod b) := by
  have hnear := natAbs_tmod_lt a hb
  have hdvd := dvd_sub_tmod a b
  split
  · rename_i hmoved
    rw [Ne, Ne, decide_eq_decide] at hmoved
    refine ⟨?_, by omega⟩
    rw [← sub_sub]
    exact hdvd.sub (Int.dvd_refl b)
  · rename_i hkept
    rw [Ne, Ne, decide_eq_decide] at hkept
    exact ⟨hdvd, by omega⟩

/-! ## Numbers of 64 bits -/

theorem fitsInt64_iff {i : Int} : fitsInt64 i = true ↔ -2 ^ 63 ≤ i ∧ i < 2 ^ 63 := by
  rw [fitsInt64, Bool.and_eq_true, decide_eq_true_eq, decide_eq_true_eq]
  omega

variable (a : Int64) {b : Int64}

theorem toInt_ne_zero (hb : b ≠ 0) : b.toInt ≠ 0 := fun h => hb (Int64.toInt_inj.mp h)

theorem fitsInt64_tmod (hb : b ≠ 0) : fitsInt64 (a.toInt.tmod b.toInt) = true := by
  have hnear := natAbs_tmod_lt a.toInt (toInt_ne_zero hb)
  have hlow := b.le_toInt
  have hhigh := b.toInt_lt
  rw [fitsInt64_iff]
  omega

/-- Numbers of different signs can be added. -/
theorem fitsInt64_add {x y : Int64} (h : decide (x < 0) ≠ decide (y < 0)) :
    fitsInt64 (x.toInt + y.toInt) = true := by
  have hx := x.le_toInt
  have hx' := x.toInt_lt
  have hy := y.le_toInt
  have hy' := y.toInt_lt
  rw [Ne, decide_eq_decide, Int64.lt_iff_toInt_lt, Int64.lt_iff_toInt_lt, Int64.toInt_zero] at h
  rw [fitsInt64_iff]
  omega

theorem toInt_add_of_fits {x y : Int64} (h : fitsInt64 (x.toInt + y.toInt) = true) :
    (x + y).toInt = x.toInt + y.toInt := by
  rw [fitsInt64_iff] at h
  rw [Int64.toInt_add]
  exact Int.bmod_eq_of_le (by omega) (by omega)

theorem toInt_floorModulo (b : Int64) : (floorModulo a b).toInt =
    if a.toInt.tmod b.toInt ≠ 0 ∧ decide (a.toInt.tmod b.toInt < 0) ≠ decide (b.toInt < 0) then
      a.toInt.tmod b.toInt + b.toInt
    else a.toInt.tmod b.toInt := by
  have hzero : a % b = 0 ↔ a.toInt.tmod b.toInt = 0 := by
    rw [← Int64.toInt_inj, Int64.toInt_mod, Int64.toInt_zero]
  rw [floorModulo]
  simp only [Ne, hzero, Int64.lt_iff_toInt_lt, Int64.toInt_mod, Int64.toInt_zero]
  split
  · rename_i hmoved
    have hsigns : decide (a % b < 0) ≠ decide (b < 0) := by
      simpa only [Int64.lt_iff_toInt_lt, Int64.toInt_mod, Int64.toInt_zero] using hmoved.2
    rw [toInt_add_of_fits (fitsInt64_add hsigns), Int64.toInt_mod]
  · exact Int64.toInt_mod a b

/-- The operator `%` on numbers fails for the divisor zero alone, and gives otherwise what a
division that rounds down leaves over. Neither of its two steps leaves the numbers of 64 bits: the
remainder toward zero is one, and so is its sum with the divisor wherever that is added. -/
theorem modulo_ints (a b : Int64) :
    ((∃ failure, modulo (.int a) (.int b) = .error failure) ↔ b = 0) ∧
    (b ≠ 0 → ∃ r : Int64, modulo (.int a) (.int b) = .ok (.int r) ∧
      r.toInt = a.toInt - b.toInt * ⌊(a.toInt : ℚ) / b.toInt⌋ ∧
      IsFloorRemainder a.toInt b.toInt r.toInt ∧
      (fitsInt64 (a.toInt.tmod b.toInt) = true ∧ (a % b).toInt = a.toInt.tmod b.toInt) ∧
      (a % b ≠ 0 → ¬ (a % b < 0 ↔ b < 0) →
        fitsInt64 ((a % b).toInt + b.toInt) = true ∧ r.toInt = (a % b).toInt + b.toInt)) := by
  by_cases hb : b = 0
  · refine ⟨⟨fun _ => hb, fun _ => ⟨.moduloByZero, ?_⟩⟩, fun hne => absurd hb hne⟩
    rw [modulo, if_pos hb]
  · have hresult : modulo (.int a) (.int b) = .ok (.int (floorModulo a b)) := by
      rw [modulo, if_neg hb]
    have hremainder : IsFloorRemainder a.toInt b.toInt (floorModulo a b).toInt := by
      rw [toInt_floorModulo]
      exact isFloorRemainder_moved a.toInt (toInt_ne_zero hb)
    refine ⟨⟨fun ⟨failure, hfailure⟩ => ?_, fun h => absurd h hb⟩,
      fun _ => ⟨floorModulo a b, hresult,
      hremainder.eq_sub_floor, hremainder, ⟨fitsInt64_tmod a hb, Int64.toInt_mod a b⟩, ?_⟩⟩
    · cases hresult.symm.trans hfailure
    · intro hne hsigns
      rw [← decide_eq_decide] at hsigns
      have hfits := fitsInt64_add hsigns
      refine ⟨hfits, ?_⟩
      rw [floorModulo, if_pos ⟨hne, hsigns⟩, toInt_add_of_fits hfits]

theorem modulo_ints_extreme :
    (∃ failure, modulo (.int Int64.minValue) (.int 0) = .error failure) ∧
    modulo (.int Int64.minValue) (.int (-1)) = .ok (.int 0) ∧
    IsFloorRemainder Int64.minValue.toInt (-1) 0 ∧
    fitsInt64 (Int64.minValue.toInt.tmod (-1)) = true ∧
    modulo (.int Int64.minValue) (.int Int64.maxValue) = .ok (.int (Int64.maxValue - 1)) ∧
    IsFloorRemainder Int64.minValue.toInt Int64.maxValue.toInt (Int64.maxValue - 1).toInt ∧
    fitsInt64 ((Int64.minValue % Int64.maxValue).toInt + Int64.maxValue.toInt) = true := by
  have hzero := (modulo_ints Int64.minValue 0).1.mpr rfl
  obtain ⟨r, hr, -, hremainder, ⟨hfits, -⟩, -⟩ := (modulo_ints Int64.minValue (-1)).2 (by decide)
  obtain ⟨s, hs, -, hremainder', -, hsum⟩ :=
    (modulo_ints Int64.minValue Int64.maxValue).2 (by decide)
  have hminus : modulo (.int Int64.minValue) (.int (-1)) = .ok (.int 0) := rfl
  have hmoved : modulo (.int Int64.minValue) (.int Int64.maxValue) =
      .ok (.int (Int64.maxValue - 1)) := rfl
  cases hr.symm.trans hminus
  cases hs.symm.trans hmoved
  exact ⟨hzero, hminus, hremainder, hfits, hmoved, hremainder', (hsum (by decide) (by decide)).1⟩

end DepsManifest.Value
