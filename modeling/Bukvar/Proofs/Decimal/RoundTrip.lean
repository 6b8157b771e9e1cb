import Bukvar.Decimal.Written
import Bukvar.Proofs.Decimal.Scaling
import Bukvar.Proofs.Token.Classification

/-!
# A written floating-point number is read back

The shortest decimal of a magnitude is read as the magnitude: what is found on one of the grids
was tested for that, and the exact value rounds to itself. Laying the digits out around a point
changes neither the number nor, up to zeros at the end, its digits. A power of ten is taken only for
numbers whose exponent has few digits, so that the reader of exponents passes over none of them.

* `nearest_units`: the exact value of a magnitude is read as the magnitude.
* `magnitude_shortest`: so is its shortest decimal.
* `exists_unsigned?_written`: what is read from a decimal that is written.
* `doubleOf_text`: a finite number is read back.
-/

namespace Bukvar.Decimal

open Binary64 (roundHalfEven nearest units unitsInOne fractions infinity)

/-! ## Exact values -/

theorem roundHalfEven_one (n : Nat) : roundHalfEven n 1 = n := by
  simp [roundHalfEven, Nat.mod_one]

theorem pow_two_pos (k : Nat) : 0 < Nat.pow 2 k :=
  Nat.pow_pos (by decide)

theorem log2_mul_pow {n : Nat} (hn : n ≠ 0) (k : Nat) :
    (n * Nat.pow 2 k).log2 = n.log2 + k := by
  induction k with
  | zero =>
    change (n * 1).log2 = n.log2
    rw [Nat.mul_one]
  | succ k ih =>
    have hne : n * Nat.pow 2 k ≠ 0 := Nat.mul_ne_zero hn (Nat.ne_of_gt (pow_two_pos k))
    have hstep : n * Nat.pow 2 (k + 1) = 2 * (n * Nat.pow 2 k) := by
      change n * (Nat.pow 2 k * 2) = _
      rw [← Nat.mul_assoc, Nat.mul_comm]
    rw [hstep, Nat.log2_two_mul hne, ih]
    rfl

theorem unitsInOne_pos : 0 < unitsInOne := by
  decide +kernel

/-- A fraction with the denominator of all magnitudes. -/
theorem nearest_unitsInOne (n : Nat) :
    nearest n unitsInOne =
      min infinity ((n.log2 - 52) * fractions + roundHalfEven n (Nat.pow 2 (n.log2 - 52))) := by
  have hpos := unitsInOne_pos
  have hcomm : ∀ k, unitsInOne * Nat.pow 2 k = Nat.pow 2 k * unitsInOne :=
    fun k => Nat.mul_comm ..
  simp only [nearest, Nat.mul_div_cancel _ hpos, hcomm, roundHalfEven_mul _ _ hpos]

theorem log2_fractions_add {f : Nat} (hf : f < fractions) : (fractions + f).log2 = 52 := by
  have hne : fractions + f ≠ 0 := by
    unfold fractions
    omega
  rw [Nat.log2_eq_iff hne]
  unfold fractions at hf ⊢
  omega

theorem nearest_small {m : Nat} (hm : m < fractions) : nearest m unitsInOne = m := by
  have hlog : m.log2 - 52 = 0 := by
    rcases Nat.eq_zero_or_pos m with rfl | hpos
    · rw [Nat.log2_zero]
    · have := (@Nat.log2_lt m 52 (Nat.ne_of_gt hpos)).mpr hm
      omega
  have hinfinity : m < infinity := Nat.lt_trans hm (by decide)
  rw [nearest_unitsInOne, hlog, Nat.zero_mul, Nat.zero_add]
  change min infinity (roundHalfEven m 1) = m
  rw [roundHalfEven_one]
  omega

theorem nearest_large {f e : Nat} (hf : f < fractions) :
    nearest ((fractions + f) * Nat.pow 2 e) unitsInOne =
      min infinity (e * fractions + (fractions + f)) := by
  have hlog : ((fractions + f) * Nat.pow 2 e).log2 - 52 = e := by
    rw [log2_mul_pow (by unfold fractions; omega), log2_fractions_add hf]
    omega
  have hround := roundHalfEven_mul (fractions + f) 1 (pow_two_pos e)
  rw [Nat.one_mul, roundHalfEven_one] at hround
  rw [nearest_unitsInOne, hlog, hround]

/-- The exact value of a magnitude is read as the magnitude. -/
theorem nearest_units {m : Nat} (hm : m < infinity) : nearest (units m) unitsInOne = m := by
  have hmod : m % fractions < fractions := Nat.mod_lt _ (by decide)
  have hdiv := Nat.div_add_mod m fractions
  by_cases hzero : m / fractions = 0
  · rw [hzero, Nat.mul_zero, Nat.zero_add] at hdiv
    rw [units, if_pos hzero, nearest_small hmod, hdiv]
  · rw [units, if_neg hzero, nearest_large hmod]
    obtain ⟨e, he⟩ := Nat.exists_eq_succ_of_ne_zero hzero
    rw [he, Nat.succ_eq_add_one, Nat.mul_add, Nat.mul_one, Nat.mul_comm] at hdiv
    rw [he, Nat.succ_eq_add_one, Nat.add_sub_cancel]
    omega

/-! ## The shortest decimal -/

theorem units_ne_zero {m : Nat} (h : m ≠ 0) : units m ≠ 0 := by
  have hdiv := Nat.div_add_mod m fractions
  unfold units
  dsimp only
  split
  next hzero =>
    rw [hzero, Nat.mul_zero, Nat.zero_add] at hdiv
    omega
  next =>
    refine Nat.mul_ne_zero ?_ (Nat.ne_of_gt (pow_two_pos _))
    unfold fractions
    omega

theorem units_lt {m : Nat} (hm : m < infinity) :
    units m < 2 * fractions * Nat.pow 2 2045 := by
  have hmod : m % fractions < fractions := Nat.mod_lt _ (by decide)
  have hexponent : m / fractions < 2047 := (Nat.div_lt_iff_lt_mul (by decide)).mpr hm
  have hone : 1 ≤ Nat.pow 2 2045 := by decide +kernel
  unfold units
  dsimp only
  split
  next =>
    calc m % fractions < 2 * fractions * 1 := by omega
      _ ≤ 2 * fractions * Nat.pow 2 2045 := Nat.mul_le_mul_left _ hone
  next =>
    have hpow : Nat.pow 2 (m / fractions - 1) ≤ Nat.pow 2 2045 :=
      Nat.pow_le_pow_right (by decide) (by omega)
    calc (fractions + m % fractions) * Nat.pow 2 (m / fractions - 1)
        ≤ (fractions + m % fractions) * Nat.pow 2 2045 := Nat.mul_le_mul_left _ hpow
      _ < 2 * fractions * Nat.pow 2 2045 := Nat.mul_lt_mul_of_pos_right (by omega) hone

theorem digitCount_le_iff {n k : Nat} (hk : 0 < k) : digitCount n ≤ k ↔ n < Nat.pow 10 k :=
  Nat.length_toDigits_le_iff (by decide) hk

/-- The exact value of a magnitude lies in the decades that the reader of decimals looks at. -/
theorem digitCount_exact {m : Nat} (h0 : m ≠ 0) (hm : m < infinity) :
    744 ≤ digitCount (exact m).digits ∧ digitCount (exact m).digits ≤ 1384 := by
  have hone : 1 ≤ units m := Nat.pos_of_ne_zero (units_ne_zero h0)
  have hlow : Nat.pow 10 743 ≤ Nat.pow 5 1074 := by decide +kernel
  have hhigh : 2 * fractions * Nat.pow 2 2045 * Nat.pow 5 1074 ≤ Nat.pow 10 1384 := by
    decide +kernel
  constructor
  · have hnot : ¬ digitCount (exact m).digits ≤ 743 := by
      intro hle
      have hlt := (digitCount_le_iff (by decide)).mp hle
      have hge : Nat.pow 5 1074 ≤ (exact m).digits := Nat.le_mul_of_pos_left _ hone
      exact Nat.lt_irrefl _ (Nat.lt_of_lt_of_le hlt (Nat.le_trans hlow hge))
    omega
  · refine (digitCount_le_iff (by decide)).mpr (Nat.lt_of_lt_of_le ?_ hhigh)
    exact Nat.mul_lt_mul_of_pos_right (units_lt hm) (by decide +kernel)

theorem magnitude_exact {m : Nat} (h0 : m ≠ 0) (hm : m < infinity) : (exact m).magnitude = m := by
  obtain ⟨hlow, hhigh⟩ := digitCount_exact h0 hm
  have hfive : 0 < Nat.pow 5 1074 := by decide +kernel
  have hne : (exact m).digits ≠ 0 := Nat.mul_ne_zero (units_ne_zero h0) (Nat.ne_of_gt hfive)
  have hten : Nat.pow 10 1074 = unitsInOne * Nat.pow 5 1074 := by decide +kernel
  have hnearest : nearest ((exact m).digits * Nat.pow 10 (exact m).exponent.toNat)
      (Nat.pow 10 (-(exact m).exponent).toNat) = nearest (units m) unitsInOne := by
    change nearest (units m * Nat.pow 5 1074 * 1) (Nat.pow 10 1074) = _
    rw [Nat.mul_one, hten, nearest_mul _ _ hfive]
  have hexponent : (exact m).exponent = -1074 := rfl
  rw [Scientific.magnitude, decimalMagnitude, if_neg hne, if_neg (by omega), if_neg (by omega),
    hnearest, nearest_units hm]

/-- The shortest decimal of a magnitude is read as the magnitude. -/
theorem magnitude_shortest {m : Nat} (h0 : m ≠ 0) (hm : m < infinity) :
    (shortest m).magnitude = m := by
  unfold shortest
  dsimp only
  cases hfound : (List.range' 1 17).findSome? fun precision =>
      (neighbours m (decade (units m) unitsInOne) precision).head? with
  | none => exact magnitude_exact h0 hm
  | some s =>
    obtain ⟨precision, -, hhead⟩ := List.exists_of_findSome?_eq_some hfound
    exact magnitude_of_mem_neighbours (List.mem_of_mem_head? hhead)

/-! ## Digits around a point -/

theorem exists_significantDigits (n : Nat) :
    ∃ zeros, digits n = significantDigits n ++ List.replicate zeros '0' := by
  have hsplit := @List.takeWhile_append_dropWhile _ (· = '0') (digits n).reverse
  have hzeros : ∀ c ∈ (digits n).reverse.takeWhile (· = '0'), c = '0' := by
    intro c hc
    have := List.all_eq_true.mp (@List.all_takeWhile _ (· = '0') (digits n).reverse) c hc
    exact of_decide_eq_true this
  refine ⟨((digits n).reverse.takeWhile (· = '0')).length, ?_⟩
  have hreverse := congrArg List.reverse hsplit
  rw [List.reverse_append, List.reverse_reverse, List.eq_replicate_of_mem hzeros,
    List.reverse_replicate] at hreverse
  exact hreverse.symm

theorem ofDigits_append_zeros {ds : List Char} (hds : ds.all Char.isDigit = true) (zeros : Nat) :
    ofDigits (ds ++ List.replicate zeros '0') = ofDigits ds * Nat.pow 10 zeros := by
  have hzeros : (List.replicate zeros '0').all Char.isDigit = true := by
    rw [List.all_replicate]
    simp
  rw [ofDigits_eq (by rw [List.all_append, hds, hzeros]; rfl), ofDigits_eq hds,
    Nat.ofDigitChars_append, Nat.ofDigitChars_replicate_zero, Nat.mul_comm]
  rfl

theorem ofDigits_zeros_append {ds : List Char} (hds : ds.all Char.isDigit = true) (zeros : Nat) :
    ofDigits (List.replicate zeros '0' ++ ds) = ofDigits ds := by
  have hzeros : (List.replicate zeros '0').all Char.isDigit = true := by
    rw [List.all_replicate]
    simp
  rw [ofDigits_eq (by rw [List.all_append, hds, hzeros]; rfl), ofDigits_eq hds,
    Nat.ofDigitChars_append, Nat.ofDigitChars_replicate_zero, Nat.mul_zero]

theorem splitPoint_point {whole fraction : List Char} (hw : whole.all Char.isDigit = true)
    (hf : fraction.all Char.isDigit = true) :
    Numeral.splitPoint (whole ++ '.' :: fraction) = (whole, fraction, []) := by
  have hw' := List.all_eq_true.mp hw
  have hf' := List.all_eq_true.mp hf
  have htake := @List.takeWhile_append_of_pos _ Char.isDigit fraction [] hf'
  have hdrop := @List.dropWhile_append_of_pos _ Char.isDigit fraction [] hf'
  rw [List.append_nil, List.takeWhile_nil, List.append_nil] at htake
  rw [List.append_nil, List.dropWhile_nil] at hdrop
  simp [Numeral.splitPoint, List.takeWhile_append_of_pos hw', List.dropWhile_append_of_pos hw',
    htake, hdrop]

/-- A numeral with a point or a power of ten is no word. -/
theorem unsigned?_eq_decimal? {cs : List Char} (h : '.' ∈ cs ∨ 'e' ∈ cs) :
    Numeral.unsigned? cs = Numeral.decimal? cs := by
  have hword : ∀ word : List Char, '.' ∉ word → 'e' ∉ word → cs.map Char.toLower ≠ word := by
    rintro word hdot hpower rfl
    rcases h with h | h
    · exact hdot (List.mem_map.mpr ⟨'.', h, by decide⟩)
    · exact hpower (List.mem_map.mpr ⟨'e', h, by decide⟩)
  simp only [Numeral.unsigned?]
  rw [decide_eq_false (hword "inf".toList (by decide) (by decide)),
    decide_eq_false (hword "infinity".toList (by decide) (by decide)), if_neg (by decide),
    if_neg (hword "nan".toList (by decide) (by decide))]

/-- Digits on both sides of a point denote the digits with the exponent that the point gives. -/
theorem unsigned?_point {whole fraction : List Char} (hne : whole ≠ [])
    (hw : whole.all Char.isDigit = true) (hf : fraction.all Char.isDigit = true) :
    Numeral.unsigned? (whole ++ '.' :: fraction) =
      some (.decimal (ofDigits (whole ++ fraction)) (0 - fraction.length)) := by
  have hempty : whole.isEmpty = false := by
    rw [List.isEmpty_eq_false_iff]
    exact hne
  rw [unsigned?_eq_decimal? (.inl (by simp)), Numeral.decimal?, splitPoint_point hw hf]
  simp [hempty, Numeral.tail?]

/-- The two sides of the point of digits that are laid out. -/
theorem exists_layOut {ds : List Char} (hne : ds ≠ []) (hds : ds.all Char.isDigit = true)
    (position : Int) :
    ∃ whole fraction zeros, layOut ds position = whole ++ '.' :: fraction ∧ whole ≠ [] ∧
      whole.all Char.isDigit = true ∧ fraction.all Char.isDigit = true ∧
      ofDigits (whole ++ fraction) = ofDigits ds * Nat.pow 10 zeros ∧
      (fraction.length : Int) = ds.length - position + zeros := by
  have hone : ofDigits ds * Nat.pow 10 0 = ofDigits ds := Nat.mul_one _
  unfold layOut
  split
  next hle =>
    refine ⟨['0'], List.replicate (-position).toNat '0' ++ ds, 0, rfl, nofun, rfl, ?_, ?_, ?_⟩
    · rw [List.all_append, List.all_replicate, hds]
      simp
    · rw [hone]
      exact ofDigits_zeros_append hds ((-position).toNat + 1)
    · rw [List.length_append, List.length_replicate]
      omega
  next hgt =>
    dsimp only
    by_cases hlong : ds.length ≤ position.toNat
    · have hdrop : (ds.drop position.toNat).isEmpty = true := by
        rw [List.drop_of_length_le hlong]
        rfl
      have hzeros : (List.replicate (position.toNat - ds.length) '0').all Char.isDigit = true := by
        rw [List.all_replicate]
        simp
      rw [if_pos hdrop, List.take_of_length_le hlong]
      refine ⟨ds ++ List.replicate (position.toNat - ds.length) '0', ['0'],
        position.toNat - ds.length + 1, by simp, by simp [hne], ?_, rfl, ?_, ?_⟩
      · rw [List.all_append, hds, hzeros]
        rfl
      · rw [List.append_assoc, ← List.replicate_succ', ofDigits_append_zeros hds]
      · simp only [List.length_cons, List.length_nil]
        omega
    · have hdrop : (ds.drop position.toNat).isEmpty = false := by
        rw [List.isEmpty_eq_false_iff]
        intro h0
        have := congrArg List.length h0
        rw [List.length_drop, List.length_nil] at this
        omega
      have hzero : position.toNat - ds.length = 0 := by omega
      have htake : ds.take position.toNat ≠ [] := by
        intro h0
        have := congrArg List.length h0
        rw [List.length_take, List.length_nil] at this
        omega
      have hall := List.all_eq_true.mp hds
      rw [hdrop, if_neg (by decide), hzero]
      refine ⟨ds.take position.toNat, ds.drop position.toNat, 0, by simp, htake, ?_, ?_, ?_, ?_⟩
      · exact List.all_eq_true.mpr fun c hc => hall c (List.mem_of_mem_take hc)
      · exact List.all_eq_true.mpr fun c hc => hall c (List.mem_of_mem_drop hc)
      · rw [List.take_append_drop, hone]
      · rw [List.length_drop]
        omega

/-- The digits of a decimal up to the zeros at their end, with the exponent that its position gives
them. -/
theorem magnitude_significantDigits {s : Scientific} (h0 : s.digits ≠ 0) :
    significantDigits s.digits ≠ [] ∧ (significantDigits s.digits).all Char.isDigit = true ∧
      decimalMagnitude (ofDigits (significantDigits s.digits))
        (s.position - (significantDigits s.digits).length) = s.magnitude := by
  obtain ⟨zeros, hdigits⟩ := exists_significantDigits s.digits
  have hall : (significantDigits s.digits).all Char.isDigit = true := by
    have := isDigit_digits s.digits
    rw [hdigits, List.all_append, Bool.and_eq_true] at this
    exact this.1
  have hvalue : s.digits = ofDigits (significantDigits s.digits) * Nat.pow 10 zeros := by
    rw [← ofDigits_append_zeros hall, ← hdigits, ofDigits_digits]
  have hcount : digitCount s.digits = (significantDigits s.digits).length + zeros := by
    rw [digitCount, hdigits, List.length_append, List.length_replicate]
  have hexponent : s.position - (significantDigits s.digits).length = s.exponent + zeros := by
    rw [Scientific.position, hcount]
    omega
  refine ⟨?_, hall, ?_⟩
  · intro hnil
    rw [hnil] at hvalue
    exact h0 (hvalue.trans (Nat.zero_mul _))
  · rw [hexponent, ← decimalMagnitude_mul, ← hvalue]
    rfl

/-- A decimal that is written out is read as the number it is. -/
theorem exists_unsigned?_layOut {s : Scientific} (h0 : s.digits ≠ 0) :
    ∃ n exponent, Numeral.unsigned? (layOut (significantDigits s.digits) s.position) =
      some (.decimal n exponent) ∧ decimalMagnitude n exponent = s.magnitude ∧
      ∃ c rest, layOut (significantDigits s.digits) s.position = c :: rest ∧ c.isDigit = true := by
  obtain ⟨hne, hall, hmagnitude⟩ := magnitude_significantDigits h0
  obtain ⟨whole, fraction, k, hlayOut, hwhole, hw, hf, hofDigits, hlength⟩ :=
    exists_layOut hne hall s.position
  obtain ⟨c, rest, rfl⟩ := List.exists_cons_of_ne_nil hwhole
  have hc : c.isDigit = true := List.all_eq_true.mp hw c (List.mem_cons_self ..)
  refine ⟨_, _, by rw [hlayOut, unsigned?_point hwhole hw hf], ?_, c, _, hlayOut, hc⟩
  have hexponent : (0 : Int) - fraction.length + k =
      s.position - (significantDigits s.digits).length := by
    rw [hlength]
    omega
  rw [hofDigits, decimalMagnitude_mul, hexponent, hmagnitude]

/-! ## Powers of ten -/

theorem foldl_exponent {ds : List Char} (hds : ds.all Char.isDigit = true) {start : Nat}
    (hsmall : Nat.ofDigitChars 10 ds start < 0x10000) :
    ds.foldl (fun n c => if n < 0x10000 then n * 10 + (digit? c).getD 0 else n) start =
      Nat.ofDigitChars 10 ds start := by
  induction ds generalizing start with
  | nil => rfl
  | cons c ds ih =>
    rw [List.all_cons, Bool.and_eq_true] at hds
    rw [Nat.ofDigitChars_cons] at hsmall ⊢
    have hle := le_ofDigitChars ds (10 * start + (c.toNat - '0'.toNat))
    rw [List.foldl_cons, if_pos (by omega), digit?_of_isDigit hds.1, Option.getD_some,
      Nat.mul_comm, ih hds.2 hsmall]

/-- The digits of an exponent all count if the number is small. -/
theorem exponentOfDigits_eq {ds : List Char} (hds : ds.all Char.isDigit = true)
    (hsmall : ofDigits ds < 0x10000) : Numeral.exponentOfDigits ds = ofDigits ds := by
  rw [ofDigits_eq hds] at hsmall ⊢
  exact foldl_exponent hds hsmall

theorem exponent?_integerText {value : Int} (h : value.natAbs < 0x10000) :
    Numeral.exponent? (integerText value).toList = some value := by
  have hunsigned : ∀ n, n < 0x10000 →
      (if !(digits n).isEmpty && (digits n).all Char.isDigit
        then some (Numeral.exponentOfDigits (digits n) : Int) else none) = some (n : Int) := by
    intro n hn
    have hexponent := exponentOfDigits_eq (isDigit_digits n) (by rwa [ofDigits_digits])
    change (if Token.isDigits (digits n) = true then _ else _) = _
    rw [if_pos (isDigits_digits n), hexponent, ofDigits_digits]
  cases value with
  | ofNat n =>
    rw [toList_integerText_ofNat]
    unfold Numeral.exponent?
    split
    next heq => exact absurd heq (isDigits_ne_minus (isDigits_digits n))
    next heq => exact absurd heq (isDigits_ne_plus (isDigits_digits n))
    next => exact hunsigned n h
  | negSucc n =>
    rw [toList_integerText_negSucc]
    change Option.map _ (if _ then _ else _) = _
    rw [hunsigned (n + 1) h]
    rfl

theorem splitPoint_power {first : Char} {fraction : List Char} (hfirst : first.isDigit = true)
    (hf : fraction.all Char.isDigit = true) (power : List Char) :
    Numeral.splitPoint ([first] ++ (if fraction.isEmpty then [] else '.' :: fraction) ++
      'e' :: power) = ([first], fraction, 'e' :: power) := by
  have hf' := List.all_eq_true.mp hf
  unfold Numeral.splitPoint
  cases fraction with
  | nil => simp [hfirst]
  | cons c fraction =>
    have htake := @List.takeWhile_append_of_pos _ Char.isDigit _ ('e' :: power) hf'
    have hdrop := @List.dropWhile_append_of_pos _ Char.isDigit _ ('e' :: power) hf'
    simp only [List.cons_append] at htake hdrop
    simp [hfirst, htake, hdrop]

/-- A decimal that is written with a power of ten is read as the number it is. -/
theorem unsigned?_layOutPower {ds : List Char} (hne : ds ≠ []) (hds : ds.all Char.isDigit = true)
    {position : Int} (hposition : (position - 1).natAbs < 0x10000) :
    Numeral.unsigned? (layOutPower ds position) =
      some (.decimal (ofDigits ds) (position - ds.length)) := by
  obtain ⟨first, fraction, rfl⟩ := List.exists_cons_of_ne_nil hne
  rw [List.all_cons, Bool.and_eq_true] at hds
  have htext : layOutPower (first :: fraction) position =
      [first] ++ (if fraction.isEmpty then [] else '.' :: fraction) ++
        'e' :: (integerText (position - 1)).toList := by
    simp [layOutPower]
  have hexponent : position - 1 - (fraction.length : Int) =
      position - ((first :: fraction).length : Int) := by
    rw [List.length_cons]
    omega
  rw [unsigned?_eq_decimal? (.inr (by simp [htext])), htext, Numeral.decimal?,
    splitPoint_power hds.1 hds.2]
  simp [Numeral.tail?, exponent?_integerText hposition, hexponent]

/-! ## Decimals as text -/

/-- A decimal that is read as a finite number other than zero is neither very long nor very far
behind the point. -/
theorem position_bounds {s : Scientific} (h0 : s.magnitude ≠ 0) (hm : s.magnitude < infinity) :
    s.digits ≠ 0 ∧ -330 ≤ s.position ∧ s.position ≤ 310 := by
  unfold Scientific.magnitude decimalMagnitude at h0 hm
  unfold Scientific.position
  split at h0
  next => exact absurd rfl h0
  next hne =>
    rw [if_neg hne] at hm
    split at h0
    next hlong =>
      rw [if_pos hlong] at hm
      exact absurd hm (Nat.lt_irrefl _)
    next hlong =>
      split at h0
      next => exact absurd rfl h0
      next hfar => exact ⟨hne, by omega, by omega⟩

/-- A decimal is read from its text as the number it is. -/
theorem exists_unsigned?_written {s : Scientific} (h0 : s.magnitude ≠ 0)
    (hm : s.magnitude < infinity) :
    ∃ n exponent, Numeral.unsigned? s.written = some (.decimal n exponent) ∧
      decimalMagnitude n exponent = s.magnitude ∧
      ∃ c rest, s.written = c :: rest ∧ c.isDigit = true := by
  obtain ⟨hdigits, hlow, hhigh⟩ := position_bounds h0 hm
  unfold Scientific.written
  dsimp only
  split
  next => exact exists_unsigned?_layOut hdigits
  next =>
    obtain ⟨hne, hall, hmagnitude⟩ := magnitude_significantDigits hdigits
    refine ⟨_, _, unsigned?_layOutPower hne hall (by omega), hmagnitude, ?_⟩
    obtain ⟨c, rest, hds⟩ := List.exists_cons_of_ne_nil hne
    have hc : c.isDigit = true := by
      rw [hds, List.all_cons, Bool.and_eq_true] at hall
      exact hall.1
    exact ⟨c, _, by rw [hds]; rfl, hc⟩

/-! ## Reading back -/

theorem parse?_sign {negative : Bool} {c : Char} {cs : List Char} {numeral : Numeral}
    (hc : c.isDigit = true) (h : Numeral.unsigned? (c :: cs) = some numeral) :
    Numeral.parse? ((if negative then ['-'] else []) ++ c :: cs) = some (negative, numeral) := by
  have hminus : c ≠ '-' := by
    rintro rfl
    cases hc
  have hplus : c ≠ '+' := by
    rintro rfl
    cases hc
  cases negative with
  | true =>
    simp only [Numeral.parse?, if_true, List.cons_append, List.nil_append, h, Option.map_some]
  | false =>
    simp only [Bool.false_eq_true, if_false, List.nil_append]
    unfold Numeral.parse?
    split
    next heq => exact absurd (List.cons.inj heq).1 hminus
    next heq => exact absurd (List.cons.inj heq).1 hplus
    next => rw [h, Option.map_some]

theorem toList_text {x : Binary64} (hfinite : x.isFinite = true) (h0 : x.magnitude ≠ 0) :
    x.text.toList = (if x.negative then ['-'] else []) ++ (shortest x.magnitude).written := by
  have hlt : x.magnitude < infinity := of_decide_eq_true hfinite
  rw [Binary64.text, if_neg (by omega)]
  simp only [if_neg h0, if_neg (Nat.ne_of_lt hlt)]
  cases x.negative <;> simp

theorem toList_text_zero {x : Binary64} (h0 : x.magnitude = 0) :
    x.text.toList = (if x.negative then ['-'] else []) ++ ['0', '.', '0'] := by
  obtain ⟨negative, magnitude, hlt⟩ := x
  cases h0
  cases negative <;> decide +revert

/-- A finite number is read back from its text. -/
theorem doubleOf_text {x : Binary64} (hfinite : x.isFinite = true) : doubleOf x.text = x := by
  obtain ⟨negative, magnitude, hlt⟩ := x
  have hm : magnitude < infinity := of_decide_eq_true hfinite
  by_cases h0 : magnitude = 0
  · subst h0
    have htext : (⟨negative, 0, hlt⟩ : Binary64).text.toList = _ := toList_text_zero rfl
    have hread : Numeral.unsigned? ('0' :: ['.', '0']) = _ :=
      @unsigned?_point ['0'] ['0'] nofun rfl rfl
    rw [doubleOf, htext, parse?_sign rfl hread, Option.map_some, Option.getD_some, Numeral.value]
    rfl
  · have hshortest := magnitude_shortest h0 hm
    obtain ⟨n, exponent, hread, hmagnitude, c, rest, hwritten, hc⟩ :=
      @exists_unsigned?_written (shortest magnitude) (by rwa [hshortest]) (by rwa [hshortest])
    have htext := toList_text hfinite h0
    simp only [hwritten] at htext
    rw [hwritten] at hread
    rw [doubleOf, htext, parse?_sign hc hread, Option.map_some, Option.getD_some, Numeral.value]
    simp only [Binary64.ofMagnitude, hmagnitude, hshortest]

end Bukvar.Decimal
