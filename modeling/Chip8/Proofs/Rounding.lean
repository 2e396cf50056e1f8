import Chip8.Decimal.Double
import Mathlib

namespace Chip8.Double

open Float.Model Float.Model.UnpackedFloat

-- The number that a double stands for, zero if it is infinite or none.
def value : Double → Rat
  | .finite negative m e => (if negative then -(m : Rat) else m) * 2 ^ e
  | .nan | .infinite _ => 0

def isFinite : Double → Bool
  | .finite .. => true
  | .nan | .infinite _ => false

-- Half a unit above the greatest double. From here on the nearest double is infinite.
def limit : Rat := (2 ^ 53 - 1 / 2) * 2 ^ (971 : Int)

def ofUnpacked : UnpackedFloat → Double
  | .notANumber => .nan
  | .infinity s => .infinite (s == .negative)
  | .zero s => .finite (s == .negative) 0 leastExponent
  | .finite s m e _ => .finite (s == .negative) m e

-- A double by its sign and the digits of its exponent and its fraction.
def ofFields (s : Sign) (exponent fraction : Nat) : Double :=
  if exponent = 2047 then if fraction = 0 then .infinite (s == .negative) else .nan
  else if exponent = 0 then .finite (s == .negative) fraction leastExponent
  else .finite (s == .negative) (fraction + 0x10000000000000) (exponent + leastExponent - 1)

-- The double that an unpacked one is packed into.
def packed (u : UnpackedFloat) : Double :=
  ofFloat (.ofModel (.pack u))

-- Where a number lies that has been cut down to a significand, as the two bits behind it tell.
def StandsFor (em : ExtendedMantissa) (x : Rat) : Prop :=
  match em.roundBit, em.stickyBit with
  | false, false => x = em.mantissa
  | false, true => em.mantissa < x ∧ x < em.mantissa + 1 / 2
  | true, false => x = em.mantissa + 1 / 2
  | true, true => em.mantissa + 1 / 2 < x ∧ x < em.mantissa + 1

-- A unit that a number is written in, so that it has 53 digits unless the unit is the least.
structure Scaled (v : Rat) (unit : Int) : Prop where
  least : -1074 ≤ unit
  lt : v / 2 ^ unit < 2 ^ 53
  normal : unit = -1074 ∨ 2 ^ 52 ≤ v / 2 ^ unit

-- A number has been rounded to so many units.
structure Rounded (v : Rat) (unit : Int) (count : Nat) : Prop where
  scaled : Scaled v unit
  le : count ≤ 2 ^ 53
  lt_succ : v / 2 ^ unit < count + 1
  full_iff : count = 2 ^ 53 ↔ 2 ^ 53 - 1 / 2 ≤ v / 2 ^ unit

-- So many units as a double, which has 53 digits at the most.
def ofUnits (s : Sign) (count : Nat) (unit : Int) : UnpackedFloat :=
  if some : count = 0 then .zero s
  else if count < 2 ^ 53 then .finite s count unit (Nat.pos_of_ne_zero some)
  else .finite s (2 ^ 52) (unit + 1) (by decide)

-- What a number that is not negative is rounded to. One that reaches the least double is not lost.
structure Rounds (d : Double) (negative : Bool) (v : Rat) : Prop where
  infinite : limit ≤ v → d = .infinite negative
  finite : v < limit → ∃ m e, d = .finite negative m e ∧ (2 ^ (-1074 : Int) ≤ v → 0 < m)

variable {em : ExtendedMantissa} {acc : Accuracy} {v x : Rat} {m n count : Nat} {e f unit : Int}

theorem toNat_unpackMantissa (b : BitVec 64) :
    (@unpackMantissa .binary64 b).toNat = b.toNat % 0x10000000000000 := by
  simp [unpackMantissa]

theorem toNat_unpackExponent (b : BitVec 64) :
    (@unpackExponent .binary64 b).toNat = b.toNat / 0x10000000000000 % 0x800 := by
  simp [unpackExponent, Nat.shiftRight_eq_div_pow]

theorem unpackSign_eq (b : BitVec 64) :
    (Sign.ofBitVec (@unpackSign .binary64 b) == .negative) = (b.toNat / 0x8000000000000000 % 2 == 1) := by
  have bit : (@unpackSign .binary64 b).toNat = b.toNat / 0x8000000000000000 % 2 := by
    simp [unpackSign, Nat.shiftRight_eq_div_pow]
  rw [← bit]
  generalize @unpackSign .binary64 b = s
  clear bit
  revert s
  decide

theorem toNat_implicit (fraction : BitVec 52) : (1#1 ++ fraction).toNat = fraction.toNat + 0x10000000000000 := by
  rw [BitVec.toNat_append, ← Nat.shiftLeft_add_eq_or_of_lt fraction.isLt, Nat.add_comm]
  rfl

theorem ofUnpacked_unpack (b : BitVec 64) : ofUnpacked (UnpackedFloat.unpack .binary64 b) =
    ofFields (.ofBitVec (@unpackSign .binary64 b)) (@unpackExponent .binary64 b).toNat
      (@unpackMantissa .binary64 b).toNat := by
  have ones : (-1#11).toNat = 2047 := by decide
  simp only [UnpackedFloat.unpack, ofFields, ← BitVec.toNat_inj, ones, BitVec.toNat_zero, toNat_implicit]
  split
  case isTrue => split <;> rfl
  case isFalse =>
    split
    case isTrue low =>
      rw [low]
      split
      case isTrue none => simp [ofUnpacked, none]
      case isFalse => rfl
    case isFalse =>
      simp [ofUnpacked, leastExponent, Format.exponentBias]
      omega

-- Taking a double apart by its bits is the same as unpacking it.
theorem ofFloat_eq (x : Float) : ofFloat x = ofUnpacked x.toModel.unpack := by
  have fields := ofUnpacked_unpack x.toBits.toBitVec
  rw [toNat_unpackExponent, toNat_unpackMantissa, ofFields, unpackSign_eq] at fields
  exact fields.symm

@[simp] theorem ofBitVec_toBitVec (s : Sign) : Sign.ofBitVec s.toBitVec = s := by
  cases s <;> rfl

@[simp] theorem unpackSign_packComponents {spec : Format} (s : Sign) (exponent : BitVec spec.exponentBits)
    (fraction : BitVec spec.mantissaBitsWithoutImplicit) :
    unpackSign (packComponents spec s exponent fraction) = s.toBitVec := by
  refine BitVec.eq_of_getLsbD_eq fun i hi => ?_
  obtain rfl : i = 0 := by omega
  simp [unpackSign, packComponents, BitVec.getLsbD_append, BitVec.getElem_append]

theorem packed_eq (u : UnpackedFloat) :
    packed u = ofUnpacked (UnpackedFloat.unpack .binary64 (UnpackedFloat.pack .binary64 u)) :=
  ofFloat_eq _

theorem packed_components {u : UnpackedFloat} {s : Sign} {exponent : BitVec 11} {fraction : BitVec 52}
    (h : UnpackedFloat.pack .binary64 u = packComponents .binary64 s exponent fraction) :
    packed u = ofFields s exponent.toNat fraction.toNat := by
  rw [packed_eq, h, ofUnpacked_unpack]
  simp

theorem packed_infinity (s : Sign) : packed (.infinity s) = .infinite (s == .negative) := by
  simp [packed_eq, UnpackedFloat.pack, packedInfinity, UnpackedFloat.unpack, ofUnpacked]

theorem packed_notANumber : packed .notANumber = .nan := by
  simp [packed_eq, UnpackedFloat.pack, packedNaN, UnpackedFloat.unpack, ofUnpacked]

theorem packed_zero (s : Sign) : packed (.zero s) = .finite (s == .negative) 0 leastExponent := by
  simp [packed_eq, UnpackedFloat.pack, packedZero, UnpackedFloat.unpack, ofUnpacked]

theorem packed_above (s : Sign) (pos : 0 < m) (above : 972 ≤ e) :
    packed (.finite s m e pos) = .infinite (s == .negative) := by
  have full : 2047 ≤ (e + 1023 + 52).toNat := by omega
  rw [← packed_infinity, packed_eq, packed_eq]
  simp [UnpackedFloat.pack, Format.exponentBias, full]

-- What has its 53 digits, or the least unit, is packed as it is.
theorem packed_within (s : Sign) (pos : 0 < m) (short : m < 2 ^ 53) (normal : e = -1074 ∨ 2 ^ 52 ≤ m)
    (least : -1074 ≤ e) (below : e < 972) : packed (.finite s m e pos) = .finite (s == .negative) m e := by
  have room : ¬ 2047 ≤ (e + 1023 + 52).toNat := by omega
  by_cases digits : 2 ^ 52 ≤ m
  case pos =>
    have width : m.log2 + 1 = 53 := congrArg (· + 1) ((Nat.log2_eq_iff pos.ne').mpr ⟨digits, short⟩)
    rw [packed_components (by simp [UnpackedFloat.pack, Format.exponentBias, Format.mantissaBits, room, width]; rfl),
      BitVec.toNat_ofNat, BitVec.toNat_ofNat, ofFields, if_neg (by omega), if_neg (by omega), leastExponent]
    congr 1 <;> omega
  case neg =>
    obtain rfl := normal.resolve_right digits
    rw [not_le] at digits
    have width : m.log2 + 1 ≠ 53 := by
      have := (Nat.log2_lt pos.ne').mpr digits
      omega
    rw [packed_components (by simp [UnpackedFloat.pack, Format.exponentBias, Format.mantissaBits, width]; rfl),
      BitVec.toNat_ofNat, BitVec.toNat_ofNat, ofFields, if_neg (by omega), if_pos (by omega), Nat.mod_eq_of_lt digits]
    rfl

theorem standsFor_exact (m : Nat) : StandsFor (.ofMantissaAndAccuracy m .exact) m :=
  rfl

theorem standsFor_fraction (m : Nat) {num den : Nat} (lt : num < den) :
    StandsFor (.ofMantissaAndAccuracy m (accuracyOfFraction num den)) (m + num / den) := by
  have pos : (0 : Rat) < den := by exact_mod_cast Nat.zero_lt_of_lt lt
  have below : (num : Rat) / den < 1 := (div_lt_one pos).mpr (by exact_mod_cast lt)
  unfold accuracyOfFraction
  split
  case isTrue zero => simp [StandsFor, ExtendedMantissa.ofMantissaAndAccuracy, zero]
  case isFalse some =>
    have above : (0 : Rat) < num / den := div_pos (by exact_mod_cast Nat.pos_of_ne_zero some) pos
    cases half : compare (2 * num) den with
    | lt =>
      have half : (2 * num : Rat) < den := by exact_mod_cast Nat.compare_eq_lt.mp half
      have lower : (num : Rat) / den < 1 / 2 := by
        rw [div_lt_iff₀ pos]
        linarith
      exact show (m : Rat) < m + num / den ∧ _ < (m : Rat) + 1 / 2 from ⟨by linarith, by linarith⟩
    | eq =>
      have half : (2 * num : Rat) = den := by exact_mod_cast Nat.compare_eq_eq.mp half
      have middle : (num : Rat) / den = 1 / 2 := by
        rw [div_eq_iff pos.ne']
        linarith
      rw [middle]
      rfl
    | gt =>
      have half : (den : Rat) < 2 * num := by exact_mod_cast Nat.compare_eq_gt.mp half
      have upper : 1 / 2 < (num : Rat) / den := by
        rw [lt_div_iff₀ pos]
        linarith
      exact show (m : Rat) + 1 / 2 < m + num / den ∧ _ < (m : Rat) + 1 from ⟨by linarith, by linarith⟩

theorem roundedMantissa_range (em : ExtendedMantissa) :
    em.mantissa ≤ em.roundedMantissa ∧ em.roundedMantissa ≤ em.mantissa + 1 := by
  rcases em with ⟨m, round, sticky⟩
  cases round <;> cases sticky <;>
    simp only [ExtendedMantissa.roundedMantissa, ExtendedMantissa.accuracy, Accuracy.roundToNearestEven] <;> omega

namespace StandsFor

theorem floor (h : StandsFor em x) : em.mantissa ≤ x ∧ x < em.mantissa + 1 := by
  rcases em with ⟨m, round, sticky⟩
  cases round <;> cases sticky <;> simp only [StandsFor] at h ⊢ <;> constructor <;> linarith

-- The last digit moves behind the significand, and the bits there tell whether anything was left of it.
theorem half (h : StandsFor em x) : StandsFor em.shiftRightOne (x / 2) := by
  rcases em with ⟨m, round, sticky⟩
  have digits : ((m % 2 : Nat) : Rat) + 2 * (m / 2 : Nat) = m := by exact_mod_cast Nat.mod_add_div m 2
  rcases Nat.mod_two_eq_zero_or_one m with last | last
  all_goals
    rw [last] at digits
    cases round <;> cases sticky <;>
      simp [StandsFor, ExtendedMantissa.shiftRightOne, last] at h digits ⊢ <;> try constructor
    all_goals linarith

theorem shift (h : StandsFor em x) (k : Nat) : StandsFor (em >>> k) (x / 2 ^ k) := by
  change StandsFor (k.repeat ExtendedMantissa.shiftRightOne em) _
  induction k with
  | zero => simpa [Nat.repeat] using h
  | succ k ih =>
    rw [Nat.repeat, pow_succ, ← div_div]
    exact ih.half

-- An even significand is rounded up to from half a unit before it.
theorem le_rounded_iff (h : StandsFor em x) {k : Nat} (even : k % 2 = 0) :
    k ≤ em.roundedMantissa ↔ (k : Rat) - 1 / 2 ≤ x := by
  have floor := h.floor
  have range := roundedMantissa_range em
  obtain below | next | above := lt_trichotomy k (em.mantissa + 1)
  · have le : (k : Rat) ≤ em.mantissa := by exact_mod_cast Nat.le_of_lt_succ below
    exact iff_of_true (by omega) (by linarith)
  · have cast : (k : Rat) = em.mantissa + 1 := by exact_mod_cast next
    rw [cast, next]
    rcases em with ⟨m, round, sticky⟩
    dsimp only at next
    cases round <;> cases sticky <;>
      simp only [StandsFor, ExtendedMantissa.roundedMantissa, ExtendedMantissa.accuracy,
        Accuracy.roundToNearestEven] at h ⊢
    · exact iff_of_false (by omega) (by linarith)
    · exact iff_of_false (by omega) (by linarith)
    · exact iff_of_true (by omega) (by linarith)
    · exact iff_of_true (by omega) (by linarith)
  · have ge : (em.mantissa : Rat) + 2 ≤ k := by exact_mod_cast above
    exact iff_of_false (by omega) (by linarith)

theorem rounded (h : StandsFor em (v / 2 ^ unit)) (scaled : Scaled v unit) : Rounded v unit em.roundedMantissa := by
  have ⟨low, high⟩ := h.floor
  have ⟨least, most⟩ := roundedMantissa_range em
  have short : em.mantissa < 2 ^ 53 := by exact_mod_cast low.trans_lt scaled.lt
  have le : em.roundedMantissa ≤ 2 ^ 53 := by omega
  have full := h.le_rounded_iff (k := 2 ^ 53) rfl
  refine ⟨scaled, le, ?_, ?_⟩
  · have : (em.mantissa : Rat) ≤ em.roundedMantissa := by exact_mod_cast least
    linarith
  · rw [← le.ge_iff_eq, full]
    push_cast
    rfl

end StandsFor

theorem targetExponent_eq (t : Int) : Format.binary64.targetExponent t = max (t - 53) (-1074) := by
  simp [Format.targetExponent, Format.minExponent, Format.mantissaBits]

theorem div_zpow_add (v : Rat) (e : Int) (k : Nat) : v / 2 ^ (e + k) = v / 2 ^ e / 2 ^ k := by
  rw [zpow_add₀ two_ne_zero, zpow_natCast, div_div]

-- The unit that a significand is cut down to is the one that its number is written in.
theorem scaled_target (h : StandsFor (.ofMantissaAndAccuracy m acc) (v / 2 ^ e))
    (le : e ≤ Format.binary64.targetExponent (totalExponent m e)) :
    Scaled v (Format.binary64.targetExponent (totalExponent m e)) := by
  have floor := h.floor
  have mantissa : (ExtendedMantissa.ofMantissaAndAccuracy m acc).mantissa = m := by
    cases acc with
    | exact => rfl
    | inexact o => cases o <;> rfl
  rw [mantissa] at floor
  obtain ⟨k, target⟩ := Int.le.dest le
  rw [← target]
  rw [targetExponent_eq, totalExponent] at target
  have pos : (0 : Rat) < 2 ^ k := by positivity
  have top : (m : Rat) + 1 ≤ 2 ^ (m.log2 + 1) := by exact_mod_cast Nat.lt_log2_self
  refine ⟨by omega, ?_, ?_⟩
  · have wide : (2 : Rat) ^ (m.log2 + 1) ≤ 2 ^ (53 + k) := pow_le_pow_right₀ one_le_two (by omega)
    rw [div_zpow_add, div_lt_iff₀ pos, ← pow_add]
    linarith
  · by_cases low : e + k = -1074
    case pos => exact .inl low
    case neg =>
      have some : m ≠ 0 := by
        rintro rfl
        simp at target low
        omega
      have bottom : (2 : Rat) ^ m.log2 ≤ m := by exact_mod_cast Nat.log2_self_le some
      have width : m.log2 = 52 + k := by omega
      refine .inr ?_
      rw [div_zpow_add, le_div_iff₀ pos, ← pow_add, ← width]
      linarith

theorem shift_short (short : count < 2 ^ 53) (least : -1074 ≤ unit) :
    shiftToTargetExponent .binary64 count unit .exact = (.ofMantissaAndAccuracy count .exact, unit) := by
  have digits : count.log2 < 53 := by
    obtain rfl | some := Nat.eq_zero_or_pos count
    · decide
    · exact (Nat.log2_lt some.ne').mpr short
  have still : (max ((count.log2 : Int) + 1 + unit - 53) (-1074) - unit).toNat = 0 := by omega
  rw [shiftToTargetExponent, targetExponent_eq, totalExponent, shiftToExponent, still, Int.natCast_zero, Int.add_zero]
  rfl

theorem shift_full (least : -1074 ≤ unit) :
    shiftToTargetExponent .binary64 (2 ^ 53) unit .exact = (.ofMantissaAndAccuracy (2 ^ 52) .exact, unit + 1) := by
  have one : (max (((2 ^ 53).log2 : Nat) + 1 + unit - 53) (-1074) - unit).toNat = 1 := by
    rw [Nat.log2_two_pow]
    omega
  rw [shiftToTargetExponent, targetExponent_eq, totalExponent, shiftToExponent, one]
  rfl

theorem roundWithAccuracy_eq (s : Sign) (first : shiftToTargetExponent .binary64 m e acc = (em, unit))
    (rounded : Rounded v unit em.roundedMantissa) :
    roundWithAccuracy .binary64 s m e acc = ofUnits s em.roundedMantissa unit := by
  have least := rounded.scaled.least
  rw [roundWithAccuracy, first]
  dsimp only
  obtain short | full := rounded.le.lt_or_eq
  · simp only [shift_short short least, ofUnits, if_pos short]
    rfl
  · rw [full, shift_full least]
    rfl

namespace Rounded

theorem normal (h : Rounded v unit count) : unit = -1074 ∨ 2 ^ 52 ≤ count := by
  refine h.scaled.normal.imp_right fun normal => Nat.le_of_lt_succ ?_
  exact_mod_cast normal.trans_lt h.lt_succ

theorem pos_of_le (h : Rounded v unit count) (le : 2 ^ (-1074 : Int) ≤ v) : 0 < count := by
  obtain rfl | normal := h.normal
  · have one : 1 ≤ v / 2 ^ (-1074 : Int) := (one_le_div (by positivity)).mpr le
    have next := one.trans_lt h.lt_succ
    exact_mod_cast (lt_add_iff_pos_left 1).mp next
  · omega

-- Only with the greatest unit does it matter how the last digit was rounded.
theorem limit_le_iff (h : Rounded v unit count) : limit ≤ v ↔ 972 ≤ unit ∨ unit = 971 ∧ count = 2 ^ 53 := by
  have pos : (0 : Rat) < 2 ^ unit := by positivity
  have twice (e : Int) : (2 : Rat) ^ (1 + e) = 2 * 2 ^ e := zpow_one_add₀ two_ne_zero e
  obtain below | rfl | above := lt_trichotomy unit 971
  · have lt := (div_lt_iff₀ pos).mp h.scaled.lt
    have small : (2 : Rat) ^ (1 + unit) ≤ 2 ^ (971 : Int) := zpow_le_zpow_right₀ one_le_two (by omega)
    refine iff_of_false (not_le.mpr ?_) (by omega)
    rw [twice] at small
    rw [limit]
    generalize (2 : Rat) ^ (971 : Int) = top at small ⊢
    linarith
  · rw [limit, ← le_div_iff₀ pos, ← h.full_iff]
    simp
  · have normal := (le_div_iff₀ pos).mp (h.scaled.normal.resolve_left (by omega))
    have large : (2 : Rat) ^ (1 + 971 : Int) ≤ 2 ^ unit := zpow_le_zpow_right₀ one_le_two (by omega)
    refine iff_of_true ?_ (.inl above)
    rw [twice] at large
    rw [limit]
    generalize (2 : Rat) ^ (971 : Int) = top at large ⊢
    linarith

theorem rounds (h : Rounded v unit count) (s : Sign) : Rounds (packed (ofUnits s count unit)) (s == .negative) v := by
  have least := h.scaled.least
  have normal := h.normal
  have le := h.le
  have beyond := h.limit_le_iff
  unfold ofUnits
  split
  case isTrue none =>
    refine ⟨fun high => ?_, fun _ => ⟨0, leastExponent, packed_zero s, fun reached => ?_⟩⟩
    · have := beyond.mp high
      omega
    · exact absurd none (h.pos_of_le reached).ne'
  case isFalse some =>
    split
    case isTrue short =>
      refine ⟨fun high => packed_above s _ ?_, fun low => ?_⟩
      · have := beyond.mp high
        omega
      · have := mt beyond.mpr low.not_ge
        have pos : 0 < count := Nat.pos_of_ne_zero some
        exact ⟨count, unit, packed_within s pos short normal least (by omega), fun _ => pos⟩
    case isFalse =>
      refine ⟨fun high => packed_above s _ ?_, fun low => ?_⟩
      · have := beyond.mp high
        omega
      · have := mt beyond.mpr low.not_ge
        exact ⟨_, _, packed_within s _ (by decide) (.inr le_rfl) (by omega) (by omega), fun _ => by decide⟩

end Rounded

theorem StandsFor.rounds (h : StandsFor (.ofMantissaAndAccuracy m acc) (v / 2 ^ e))
    (le : e ≤ Format.binary64.targetExponent (totalExponent m e)) (s : Sign) :
    Rounds (packed (roundWithAccuracy .binary64 s m e acc)) (s == .negative) v := by
  have scaled := scaled_target h le
  obtain ⟨k, target⟩ := Int.le.dest le
  have first : shiftToTargetExponent .binary64 m e acc =
      (ExtendedMantissa.ofMantissaAndAccuracy m acc >>> k, Format.binary64.targetExponent (totalExponent m e)) := by
    have amount : (Format.binary64.targetExponent (totalExponent m e) - e).toNat = k := by omega
    rw [shiftToTargetExponent, shiftToExponent, amount, target]
  have shifted := h.shift k
  rw [← div_zpow_add, target] at shifted
  rw [roundWithAccuracy_eq s first (shifted.rounded scaled)]
  exact (shifted.rounded scaled).rounds s

theorem limit_pos : 0 < limit := by
  norm_num [limit]

theorem rounds_zero {d : Double} {negative : Bool} (zero : d = .finite negative 0 leastExponent) :
    Rounds d negative 0 := by
  refine ⟨fun high => absurd limit_pos high.not_gt, fun _ => ⟨0, _, zero, fun reached => ?_⟩⟩
  exact absurd reached (not_le.mpr (by positivity))

theorem log2_shift (pos : 0 < m) (k : Nat) : (m * 2 ^ k).log2 = m.log2 + k := by
  have bounds := (Nat.log2_eq_iff pos.ne').mp rfl
  have product : m * 2 ^ k ≠ 0 := by positivity
  rw [Nat.log2_eq_iff product, Nat.add_right_comm, pow_add, pow_add]
  exact ⟨Nat.mul_le_mul_right _ bounds.1, Nat.mul_lt_mul_of_pos_right bounds.2 (by positivity)⟩

theorem rounds_round (s : Sign) (pos : 0 < m) (e : Int) :
    Rounds (packed (UnpackedFloat.round .binary64 s m e)) (s == .negative) (m * 2 ^ e) := by
  generalize target : Format.binary64.targetExponent (totalExponent m e) = unit
  obtain ⟨k, amount⟩ : ∃ k, k = (e - unit).toNat := ⟨_, rfl⟩
  have same : totalExponent (m * 2 ^ k) (e - k) = totalExponent m e := by
    rw [totalExponent, totalExponent, log2_shift pos]
    omega
  have whole : (m : Rat) * 2 ^ e / 2 ^ (e - k) = (m * 2 ^ k : Nat) := by
    rw [mul_div_assoc, ← zpow_sub₀ two_ne_zero, sub_sub_cancel, zpow_natCast]
    push_cast
    rfl
  rw [UnpackedFloat.round, target, decreaseExponent, ← amount, Nat.shiftLeft_eq]
  refine StandsFor.rounds (whole ▸ standsFor_exact _) ?_ s
  rw [same, target]
  omega

theorem rounds_normalize (n : Int) (e : Int) (s : Sign) :
    ∃ negative, Rounds (packed (UnpackedFloat.normalize .binary64 n e s)) negative (|(n : Rat)| * 2 ^ e) := by
  rw [UnpackedFloat.normalize]
  obtain below | rfl | above := lt_trichotomy n 0
  · have size : |(n : Rat)| = (-n).toNat := by
      rw [abs_of_neg (by exact_mod_cast below)]
      exact_mod_cast (Int.toNat_of_nonneg (show 0 ≤ -n by omega)).symm
    rw [Int.compare_eq_lt.mpr below, size]
    exact ⟨_, rounds_round .negative (by omega) e⟩
  · refine ⟨s == .negative, ?_⟩
    simpa using rounds_zero (packed_zero s)
  · have size : |(n : Rat)| = n.toNat := by
      rw [abs_of_pos (by exact_mod_cast above)]
      exact_mod_cast (Int.toNat_of_nonneg above.le).symm
    rw [Int.compare_eq_gt.mpr above, size]
    exact ⟨_, rounds_round .positive (by omega) e⟩

theorem div_add_mod_div (a : Nat) (pos : 0 < n) : ((a / n : Nat) : Rat) + (a % n : Nat) / n = a / n := by
  have pos : (0 : Rat) < n := by exact_mod_cast pos
  rw [eq_div_iff pos.ne', add_mul, div_mul_cancel₀ _ pos.ne']
  exact_mod_cast Nat.div_add_mod' a n

-- The significand of a quotient is worked out to 53 digits or to the least unit before it is cut down.
theorem rounds_divCore (s : Sign) (pos : 0 < m) (some : 0 < n) :
    let (q, unit, acc) := divCore .binary64 m e n f
    Rounds (packed (roundWithAccuracy .binary64 s q unit acc)) (s == .negative) (m * 2 ^ e / (n * 2 ^ f)) := by
  rw [divCore]
  generalize target : min (e - f) _ = unit
  obtain ⟨k, amount⟩ : ∃ k, k = (e - f - unit).toNat := ⟨_, rfl⟩
  have exponent : unit = e - f - k := by omega
  have powers : (2 : Rat) ^ e / (2 ^ f * 2 ^ unit) = 2 ^ k := by
    rw [← zpow_add₀ two_ne_zero, ← zpow_sub₀ two_ne_zero, exponent, ← zpow_natCast]
    congr 1
    omega
  have quotient : (m : Rat) * 2 ^ e / (n * 2 ^ f) / 2 ^ unit = (m * 2 ^ k / n : Nat) + (m * 2 ^ k % n : Nat) / n := by
    calc (m : Rat) * 2 ^ e / (n * 2 ^ f) / 2 ^ unit = m * (2 ^ e / (2 ^ f * 2 ^ unit)) / n := by ring
      _ = (m * 2 ^ k : Nat) / n := by
        rw [powers]
        push_cast
        rfl
      _ = _ := (div_add_mod_div _ some).symm
  rw [← amount, Nat.shiftLeft_eq]
  refine StandsFor.rounds (quotient ▸ standsFor_fraction _ (Nat.mod_lt _ some)) ?_ s
  rw [targetExponent_eq, totalExponent] at target ⊢
  rw [totalExponent] at target
  by_cases least : unit ≤ -1074
  case pos => omega
  case neg =>
    have wide : 2 ^ 52 ≤ m * 2 ^ k / n := by
      rw [Nat.le_div_iff_mul_le some]
      calc 2 ^ 52 * n ≤ 2 ^ 52 * 2 ^ (n.log2 + 1) := Nat.mul_le_mul_left _ Nat.lt_log2_self.le
        _ = 2 ^ (n.log2 + 53) := by ring
        _ ≤ 2 ^ (m.log2 + k) := Nat.pow_le_pow_right two_pos (by omega)
        _ = 2 ^ m.log2 * 2 ^ k := pow_add ..
        _ ≤ m * 2 ^ k := Nat.mul_le_mul_right _ (Nat.log2_self_le pos.ne')
    have digits : 52 ≤ (m * 2 ^ k / n).log2 := (Nat.le_log2 (by omega)).mpr wide
    omega

theorem abs_value_finite (negative : Bool) (m : Nat) (e : Int) : |value (.finite negative m e)| = m * 2 ^ e := by
  cases negative <;> simp [value, abs_mul, abs_zpow]

theorem value_apply (s : Sign) (m : Nat) (e : Int) :
    value (.finite (s == .negative) m e) = (s.apply m : Int) * 2 ^ e := by
  cases s
  case negative => exact congrArg (· * _) (Int.cast_neg (m : Int)).symm
  case positive => rfl

variable {x y : Float}

theorem unpack_of_nan (h : ofFloat x = .nan) : x.toModel.unpack = .notANumber := by
  rw [ofFloat_eq] at h
  cases u : x.toModel.unpack <;> rw [u] at h <;> cases h

theorem unpack_of_infinite {negative : Bool} (h : ofFloat x = .infinite negative) :
    ∃ s, x.toModel.unpack = .infinity s := by
  rw [ofFloat_eq] at h
  cases u : x.toModel.unpack <;> rw [u] at h <;> cases h
  exact ⟨_, rfl⟩

theorem unpack_of_isFinite (h : (ofFloat x).isFinite = true) : (∃ s, x.toModel.unpack = .zero s) ∨
    ∃ s m e pos, x.toModel.unpack = .finite s m e pos := by
  rw [ofFloat_eq] at h
  cases u : x.toModel.unpack <;> rw [u] at h <;> cases h
  case zero s => exact .inl ⟨s, rfl⟩
  case finite s m e pos => exact .inr ⟨s, m, e, pos, rfl⟩

-- A finite double that is not zero has its 53 digits or the least unit.
theorem unpack_within {s : Sign} {pos : 0 < m} (h : x.toModel.unpack = .finite s m e pos) :
    m < 2 ^ 53 ∧ (e = -1074 ∨ 2 ^ 52 ≤ m) ∧ -1074 ≤ e ∧ e < 972 := by
  have same : ofFields _ _ _ = .finite _ m e :=
    (ofUnpacked_unpack x.toBits.toBitVec).symm.trans (congrArg ofUnpacked h)
  have exponent : _ < 2 ^ 11 := (@unpackExponent .binary64 x.toBits.toBitVec).isLt
  have fraction : _ < 2 ^ 52 := (@unpackMantissa .binary64 x.toBits.toBitVec).isLt
  rw [ofFields, leastExponent] at same
  split at same
  case isTrue => split at same <;> cases same
  case isFalse => split at same <;> obtain ⟨_, rfl, rfl⟩ := Double.finite.inj same <;> omega

theorem value_lt_limit {s : Sign} {pos : 0 < m} (h : x.toModel.unpack = .finite s m e pos) :
    (m : Rat) * 2 ^ e < limit := by
  have ⟨short, _, _, below⟩ := unpack_within h
  have digits : (m : Rat) + 1 ≤ 2 ^ 53 := by exact_mod_cast short
  have powers : (2 : Rat) ^ e ≤ 2 ^ (971 : Int) := zpow_le_zpow_right₀ one_le_two (by omega)
  calc (m : Rat) * 2 ^ e ≤ m * 2 ^ (971 : Int) := by gcongr
    _ < limit := mul_lt_mul_of_pos_right (by linarith) (by positivity)

theorem rounds_within {s : Sign} {pos : 0 < m} (h : x.toModel.unpack = .finite s m e pos) (t : Sign) :
    Rounds (packed (.finite t m e pos)) (t == .negative) (m * 2 ^ e) := by
  have ⟨short, normal, least, below⟩ := unpack_within h
  refine ⟨fun high => absurd high (value_lt_limit h).not_ge, fun _ => ?_⟩
  exact ⟨m, e, packed_within t pos short normal least below, fun _ => pos⟩

-- Counting in smaller units keeps the value.
theorem apply_decreased (s : Sign) (m : Nat) (le : unit ≤ e) :
    ((s.apply m : Int) : Rat) * 2 ^ e = (s.apply (decreaseExponent m e unit).1 : Int) * 2 ^ unit := by
  obtain ⟨k, rfl⟩ := Int.le.dest le
  have amount : (unit + k - unit).toNat = k := by omega
  have powers : (2 : Rat) ^ (unit + k) = 2 ^ k * 2 ^ unit := by
    rw [zpow_add₀ two_ne_zero, zpow_natCast, mul_comm]
  rw [decreaseExponent, amount, Nat.shiftLeft_eq, powers, ← mul_assoc]
  cases s <;> simp [Sign.apply]

theorem ofFloat_sub (x y : Float) :
    ofFloat (x - y) = packed (UnpackedFloat.sub .binary64 x.toModel.unpack y.toModel.unpack) :=
  rfl

theorem ofFloat_div (x y : Float) :
    ofFloat (x / y) = packed (UnpackedFloat.div .binary64 x.toModel.unpack y.toModel.unpack) :=
  rfl

-- The difference of two finite doubles is the exact one, rounded.
theorem rounds_sub (hx : (ofFloat x).isFinite = true) (hy : (ofFloat y).isFinite = true) :
    ∃ negative, Rounds (ofFloat (x - y)) negative |(ofFloat x).value - (ofFloat y).value| := by
  rw [ofFloat_sub, ofFloat_eq x, ofFloat_eq y]
  obtain ⟨s, ux⟩ | ⟨s, m, e, pos, ux⟩ := unpack_of_isFinite hx <;>
    obtain ⟨t, uy⟩ | ⟨t, n, f, some, uy⟩ := unpack_of_isFinite hy <;>
    rw [ux, uy, ofUnpacked, ofUnpacked]
  · have none : |value (.finite (s == .negative) 0 leastExponent) - value (.finite (t == .negative) 0 leastExponent)| =
        0 := by simp [value]
    rw [none, UnpackedFloat.sub]
    split <;> exact ⟨_, rounds_zero (packed_zero _)⟩
  · have size : |value (.finite (s == .negative) 0 leastExponent) - value (.finite (t == .negative) n f)| =
        n * 2 ^ f := by
      rw [← abs_value_finite (t == .negative)]
      simp [value]
    exact ⟨_, size ▸ rounds_within uy _⟩
  · have size : |value (.finite (s == .negative) m e) - value (.finite (t == .negative) 0 leastExponent)| =
        m * 2 ^ e := by
      rw [← abs_value_finite (s == .negative)]
      simp [value]
    exact ⟨_, size ▸ rounds_within ux _⟩
  · rw [value_apply, value_apply, UnpackedFloat.sub, apply_decreased s m (min_le_left e f),
      apply_decreased t n (min_le_right e f), ← sub_mul, abs_mul, abs_zpow, abs_two, ← Int.cast_sub]
    exact rounds_normalize _ (min e f) .positive

-- So is the quotient by one that is not zero.
theorem rounds_div (hx : (ofFloat x).isFinite = true) (hy : (ofFloat y).isFinite = true)
    (ne : (ofFloat y).value ≠ 0) :
    ∃ negative, Rounds (ofFloat (x / y)) negative (|(ofFloat x).value| / |(ofFloat y).value|) := by
  obtain ⟨t, uy⟩ | ⟨t, n, f, some, uy⟩ := unpack_of_isFinite hy
  · rw [ofFloat_eq, uy] at ne
    simp [ofUnpacked, value] at ne
  · rw [ofFloat_div, ofFloat_eq x, ofFloat_eq y]
    obtain ⟨s, ux⟩ | ⟨s, m, e, pos, ux⟩ := unpack_of_isFinite hx <;> rw [ux, uy, ofUnpacked, ofUnpacked]
    · have none : |value (.finite (s == .negative) 0 leastExponent)| / |value (.finite (t == .negative) n f)| = 0 := by
        simp [value]
      exact ⟨_, none ▸ rounds_zero (packed_zero _)⟩
    · rw [abs_value_finite, abs_value_finite]
      exact ⟨_, rounds_divCore (s / t) pos some⟩

theorem infinite_div_infinite {a b : Bool} (hx : ofFloat x = .infinite a) (hy : ofFloat y = .infinite b) :
    ofFloat (x / y) = .nan := by
  obtain ⟨s, ux⟩ := unpack_of_infinite hx
  obtain ⟨t, uy⟩ := unpack_of_infinite hy
  rw [ofFloat_div, ux, uy]
  exact packed_notANumber

theorem infinite_div {a : Bool} (hx : ofFloat x = .infinite a) (hy : (ofFloat y).isFinite = true) :
    ∃ b, ofFloat (x / y) = .infinite b := by
  obtain ⟨s, ux⟩ := unpack_of_infinite hx
  obtain ⟨t, uy⟩ | ⟨t, n, f, some, uy⟩ := unpack_of_isFinite hy <;> rw [ofFloat_div, ux, uy] <;>
    exact ⟨_, packed_infinity _⟩

theorem div_infinite {b : Bool} (hx : (ofFloat x).isFinite = true) (hy : ofFloat y = .infinite b) :
    ∃ negative, ofFloat (x / y) = .finite negative 0 leastExponent := by
  obtain ⟨t, uy⟩ := unpack_of_infinite hy
  obtain ⟨s, ux⟩ | ⟨s, m, e, pos, ux⟩ := unpack_of_isFinite hx <;> rw [ofFloat_div, ux, uy] <;>
    exact ⟨_, packed_zero _⟩

theorem div_nan (hy : ofFloat y = .nan) : ofFloat (x / y) = .nan := by
  rw [ofFloat_div, unpack_of_nan hy]
  cases x.toModel.unpack <;> exact packed_notANumber

theorem unpack_zero : (0 : Float).toModel.unpack = .zero .positive :=
  rfl

theorem le_iff : x ≤ y ↔ x.toModel.unpack.le y.toModel.unpack = true :=
  decide_eq_true_iff

theorem beq_zero_iff : (x == 0) = true ↔ (ofFloat x).isFinite = true ∧ (ofFloat x).value = 0 := by
  change UnpackedFloat.beq _ (0 : Float).toModel.unpack = true ↔ _
  rw [unpack_zero, ofFloat_eq]
  cases x.toModel.unpack with
  | notANumber => decide +revert
  | infinity s => cases s <;> decide
  | zero s => simp [UnpackedFloat.beq, UnpackedFloat.compare, ofUnpacked, isFinite, value]
  | finite s m e pos =>
    have some : 0 < |value (.finite (s == .negative) m e)| := by
      rw [abs_value_finite]
      positivity
    refine iff_of_false ?_ fun h => abs_pos.mp some h.2
    cases s <;> exact Bool.false_ne_true

-- What is not at zero or below it is none, or above it.
theorem above_zero (h : ¬ x ≤ 0) : ofFloat x = .nan ∨ ofFloat x = .infinite false ∨
    (ofFloat x).isFinite = true ∧ 0 < (ofFloat x).value := by
  rw [le_iff, unpack_zero] at h
  rw [ofFloat_eq]
  cases u : x.toModel.unpack with
  | notANumber => exact .inl rfl
  | infinity s =>
    cases s with
    | positive => exact .inr (.inl rfl)
    | negative => exact absurd (u ▸ rfl) h
  | zero s => exact absurd (u ▸ rfl) h
  | finite s m e pos =>
    cases s with
    | positive =>
      refine .inr (.inr ⟨rfl, ?_⟩)
      have some : (0 : Rat) < (m : Int) := by exact_mod_cast pos
      rw [ofUnpacked, value_apply]
      exact mul_pos some (by positivity)
    | negative => exact absurd (u ▸ rfl) h

theorem abs_value_lt_limit (x : Float) : |(ofFloat x).value| < limit := by
  cases u : x.toModel.unpack <;> rw [ofFloat_eq, u, ofUnpacked]
  case finite s m e pos =>
    rw [abs_value_finite]
    exact value_lt_limit u
  all_goals simp [value, limit_pos]

namespace Rounds

variable {d : Double} {negative : Bool}

theorem isFinite_iff (h : Rounds d negative v) : d.isFinite = true ↔ v < limit := by
  obtain low | high := lt_or_ge v limit
  · obtain ⟨m, e, d_eq, _⟩ := h.finite low
    exact iff_of_true (d_eq ▸ rfl) low
  · rw [h.infinite high]
    exact iff_of_false Bool.false_ne_true high.not_gt

theorem value_ne_zero (h : Rounds d negative v) (low : v < limit) (least : 2 ^ (-1074 : Int) ≤ v) :
    d.value ≠ 0 := by
  obtain ⟨m, e, rfl, some⟩ := h.finite low
  rw [← abs_pos, abs_value_finite]
  have pos := some least
  positivity

end Rounds

end Chip8.Double
