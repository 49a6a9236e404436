import Mathlib.Algebra.Order.Floor.Ring
import Mathlib.Algebra.Order.Round
import Mathlib.Data.List.TakeWhile
import Mathlib.Data.Rat.Floor
import Mathlib.Tactic.Linarith
import Mathlib.Tactic.FieldSimp
import Mathlib.Tactic.Ring

/-!
# Decimal text of integers and of numbers in fixed notation

Printing and reading as the C library does it. A number in fixed notation is
rounded to a given number of places, to even on a tie; reading the text gives the
rounded number back, which is off by at most half a unit of the last place.
Reading takes the longest prefix that is a decimal number; hexadecimal numbers,
infinities and NaN are left out.
-/

namespace Decimal

/-- The text of an integer. -/
def ofInt (n : ℤ) : List Char := (if n < 0 then ['-'] else []) ++ Nat.toDigits 10 n.natAbs

/-- The characters that are skipped before a number. -/
def isSpace (c : Char) : Bool := c = ' ' || (9 ≤ c.toNat && c.toNat ≤ 13)

/-- An optional sign, and the text behind it. -/
def sign : List Char → Bool × List Char
  | '-' :: s => (true, s)
  | '+' :: s => (false, s)
  | s => (false, s)

/-- Reads an integer. -/
def parseInt (s : List Char) : Option ℤ :=
  let (negative, s) := sign (s.dropWhile isSpace)
  let digits := s.takeWhile Char.isDigit
  let value : ℤ := Nat.ofDigitChars 10 digits 0
  if digits = [] then none else some (if negative then -value else value)

/-- Digits are not spaces. -/
theorem not_isSpace_of_isDigit {c : Char} (hc : c.isDigit) : isSpace c = false := by
  have hrange : 48 ≤ c.toNat := (Char.isDigit_iff_toNat.mp hc).1
  have hspace : c ≠ ' ' := by
    rintro rfl
    exact absurd hc (by decide)
  simp only [isSpace, hspace, decide_false, Bool.false_or, Bool.and_eq_false_iff,
    decide_eq_false_iff_not]
  omega

/-- Every character of the digits of a number is a digit. -/
theorem isDigit_of_mem_toDigits {n : ℕ} {c : Char} (hc : c ∈ Nat.toDigits 10 n) : c.isDigit :=
  Nat.isDigit_of_mem_toDigits (by decide) (by decide) hc

/-- Padding with zeros adds digits only. -/
theorem isDigit_of_mem_leftpad {n places : ℕ} {c : Char}
    (hc : c ∈ (Nat.toDigits 10 n).leftpad places '0') : c.isDigit := by
  rcases List.mem_append.mp hc with hzero | hdigit
  · rw [(List.mem_replicate.mp hzero).2]
    decide
  · exact isDigit_of_mem_toDigits hdigit

/-- A text that begins with a digit is read without a sign. -/
theorem sign_of_isDigit {c : Char} {s : List Char} (hc : c.isDigit) :
    sign ((c :: s).dropWhile isSpace) = (false, c :: s) := by
  rw [List.dropWhile_cons_of_neg (by simp [not_isSpace_of_isDigit hc])]
  unfold sign
  split
  next heq => cases heq; exact absurd hc (by decide)
  next heq => cases heq; exact absurd hc (by decide)
  next => rfl

/-- An optional minus sign in front of digits is read back. -/
theorem sign_digits (negative : Prop) [Decidable negative] (n : ℕ) (s : List Char) :
    sign (((if negative then ['-'] else []) ++ (Nat.toDigits 10 n ++ s)).dropWhile isSpace) =
      (decide negative, Nat.toDigits 10 n ++ s) := by
  split_ifs with h
  · rw [List.singleton_append, List.dropWhile_cons_of_neg (by decide), sign, decide_eq_true h]
  · obtain ⟨c, t, hct⟩ := List.exists_cons_of_ne_nil (Nat.toDigits_ne_nil (b := 10) (n := n))
    have hc : c.isDigit := isDigit_of_mem_toDigits (hct ▸ List.mem_cons_self)
    rw [hct, List.nil_append, List.cons_append, sign_of_isDigit hc, decide_eq_false h]

/-- Digits in front of another character are read back. -/
theorem takeWhile_toDigits (n : ℕ) {s : List Char} (hs : ∀ c ∈ s.head?, ¬c.isDigit) :
    (Nat.toDigits 10 n ++ s).takeWhile Char.isDigit = Nat.toDigits 10 n ∧
      (Nat.toDigits 10 n ++ s).dropWhile Char.isDigit = s := by
  have hdigits : ∀ c ∈ Nat.toDigits 10 n, Char.isDigit c = true := fun c hc =>
    isDigit_of_mem_toDigits hc
  rw [List.takeWhile_append_of_pos hdigits, List.dropWhile_append_of_pos hdigits]
  cases s with
  | nil => simp
  | cons c s =>
    have hc : ¬c.isDigit := hs c rfl
    simp [List.takeWhile_cons_of_neg hc, List.dropWhile_cons_of_neg hc]

/-- Reading the text of an integer gives it back. -/
theorem parseInt_ofInt (n : ℤ) : parseInt (ofInt n) = some n := by
  have hsign := sign_digits (n < 0) n.natAbs []
  obtain ⟨htake, -⟩ := takeWhile_toDigits n.natAbs (s := []) (by simp)
  rw [List.append_nil] at hsign htake
  rw [parseInt, ofInt, hsign]
  simp only [htake, Nat.toDigits_ne_nil, if_false, Nat.ofDigitChars_ten_toDigits,
    decide_eq_true_eq]
  congr 1
  split_ifs <;> omega

/-- The fraction is printed with exactly the given number of digits. -/
theorem length_leftpad {places n : ℕ} (hplaces : 0 < places) (hn : n < 10 ^ places) :
    ((Nat.toDigits 10 n).leftpad places '0').length = places := by
  have hlen := (Nat.length_toDigits_le_iff (by decide) hplaces).mpr hn
  rw [List.length_leftpad]
  omega

/-- Reading a whole part and a padded fraction as one number puts them together. -/
theorem ofDigitChars_leftpad {places q r : ℕ} (hplaces : 0 < places) (hr : r < 10 ^ places) :
    Nat.ofDigitChars 10 (Nat.toDigits 10 q ++ (Nat.toDigits 10 r).leftpad places '0') 0 =
      10 ^ places * q + r := by
  have hpad : Nat.ofDigitChars 10 ((Nat.toDigits 10 r).leftpad places '0') 0 = r := by
    rw [List.leftpad, Nat.ofDigitChars_append, Nat.ofDigitChars_replicate_zero, Nat.mul_zero,
      Nat.ofDigitChars_ten_toDigits]
  rw [Nat.ofDigitChars_append, Nat.ofDigitChars_ten_toDigits,
    Nat.ofDigitChars_eq_ofDigitChars_zero, hpad, length_leftpad hplaces hr]

/-- The text of an integer is not empty, and consists of digits and a sign. -/
theorem ofInt_chars (n : ℤ) : ofInt n ≠ [] ∧ ∀ c ∈ ofInt n, c.isDigit ∨ c = '-' := by
  refine ⟨List.append_ne_nil_of_right_ne_nil _ Nat.toDigits_ne_nil, fun c hc => ?_⟩
  rcases List.mem_append.mp hc with hsign | hdigit
  · split_ifs at hsign
    · exact .inr (List.mem_singleton.mp hsign)
    · cases hsign
  · exact .inl (isDigit_of_mem_toDigits hdigit)

/-- Reads an exponent. Without digits it is zero, as if there were none. -/
def exponent : List Char → ℤ
  | [] => 0
  | c :: s =>
    if c = 'e' ∨ c = 'E' then
      let (negative, s) := sign s
      let value : ℤ := Nat.ofDigitChars 10 (s.takeWhile Char.isDigit) 0
      if negative then -value else value
    else 0

/-- Reads digits behind a decimal point, and the text behind them. -/
def fraction : List Char → List Char × List Char
  | '.' :: s => (s.takeWhile Char.isDigit, s.dropWhile Char.isDigit)
  | s => ([], s)

variable {K : Type*} [Field K]

/-- Reads a number with an optional fraction and exponent. -/
def parse (s : List Char) : Option K :=
  let (negative, s) := sign (s.dropWhile isSpace)
  let whole := s.takeWhile Char.isDigit
  let (fractionDigits, s) := fraction (s.dropWhile Char.isDigit)
  let value : K := Nat.ofDigitChars 10 (whole ++ fractionDigits) 0 *
    10 ^ (exponent s - fractionDigits.length)
  if whole ++ fractionDigits = [] then none else some (if negative then -value else value)

/-- The text of an integer is read as that number, also where fractions are allowed. -/
theorem parse_ofInt (n : ℤ) : parse (ofInt n) = some (n : K) := by
  have hsign := sign_digits (n < 0) n.natAbs []
  obtain ⟨htake, hdrop⟩ := takeWhile_toDigits n.natAbs (s := []) (by simp)
  rw [List.append_nil] at hsign htake hdrop
  rw [parse, ofInt, hsign]
  simp only [htake, hdrop, fraction, List.append_nil, Nat.toDigits_ne_nil, if_false,
    Nat.ofDigitChars_ten_toDigits, exponent, List.length_nil, Nat.cast_zero, sub_zero, zpow_zero,
    mul_one, decide_eq_true_eq]
  congr 1
  split_ifs with hneg
  · rw [← Int.cast_natCast, ← Int.cast_neg]
    congr 1
    omega
  · rw [← Int.cast_natCast]
    congr 1
    omega

variable [LinearOrder K] [FloorRing K]

/-- The nearest integer, the even one on a tie. -/
def roundHalfEven (x : K) : ℤ :=
  if Int.fract x < 1 - Int.fract x then ⌊x⌋
  else if 1 - Int.fract x < Int.fract x then ⌊x⌋ + 1
  else if ⌊x⌋ % 2 = 0 then ⌊x⌋ else ⌊x⌋ + 1

/-- The absolute value in units of the last place, rounded. -/
def units (places : ℕ) (x : K) : ℕ := (roundHalfEven (|x| * 10 ^ places)).toNat

/-- The text of a number in fixed notation, with a positive number of places. -/
def fixed (places : ℕ) (x : K) : List Char :=
  (if x < 0 then ['-'] else []) ++ (Nat.toDigits 10 (units places x / 10 ^ places) ++
    '.' :: (Nat.toDigits 10 (units places x % 10 ^ places)).leftpad places '0')

/-- The number that is printed. -/
def rounded (places : ℕ) (x : K) : K :=
  if x < 0 then -(units places x / 10 ^ places) else units places x / 10 ^ places

/-- Reading a number in fixed notation gives the printed number. -/
theorem parse_fixed {places : ℕ} (hplaces : 0 < places) (x : K) :
    parse (fixed places x) = some (rounded places x) := by
  have hr : units places x % 10 ^ places < 10 ^ places := Nat.mod_lt _ (Nat.pow_pos (by decide))
  have hlen := length_leftpad hplaces hr
  have hvalue := ofDigitChars_leftpad (q := units places x / 10 ^ places) hplaces hr
  rw [Nat.div_add_mod] at hvalue
  generalize hpad : (Nat.toDigits 10 (units places x % 10 ^ places)).leftpad places '0' = pad
    at hlen hvalue
  have hdigits : ∀ c ∈ pad, Char.isDigit c = true := fun c hc =>
    isDigit_of_mem_leftpad (hpad ▸ hc)
  have htake : pad.takeWhile Char.isDigit = pad := List.takeWhile_eq_self_iff.mpr hdigits
  have hdrop : pad.dropWhile Char.isDigit = [] := List.dropWhile_eq_nil_iff.mpr hdigits
  obtain ⟨hwhole, hrest⟩ := takeWhile_toDigits (units places x / 10 ^ places) (s := '.' :: pad)
    (by simp)
  rw [parse, fixed, hpad, sign_digits]
  simp only [hwhole, hrest, fraction, htake, hdrop, exponent, hvalue, hlen, rounded,
    List.append_eq_nil_iff, Nat.toDigits_ne_nil, false_and, if_false, decide_eq_true_eq]
  congr 1
  rw [zero_sub, zpow_neg, zpow_natCast, ← div_eq_mul_inv]

example : (parse " -12.50e-1,".toList : Option ℚ) = some (-5 / 4) := by decide +kernel

/-- Fixed notation is not empty, and consists of digits, a sign and a point. -/
theorem fixed_chars (places : ℕ) (x : K) :
    fixed places x ≠ [] ∧ ∀ c ∈ fixed places x, c.isDigit ∨ c = '-' ∨ c = '.' := by
  refine ⟨by simp [fixed], fun c hc => ?_⟩
  rcases List.mem_append.mp hc with hsign | hc
  · split_ifs at hsign
    · exact .inr (.inl (List.mem_singleton.mp hsign))
    · cases hsign
  rcases List.mem_append.mp hc with hdigit | hc
  · exact .inl (isDigit_of_mem_toDigits hdigit)
  rcases List.mem_cons.mp hc with hpoint | hdigit
  · exact .inr (.inr hpoint)
  · exact .inl (isDigit_of_mem_leftpad hdigit)

example : fixed 6 (-1 / 3 : ℚ) = "-0.333333".toList := by decide +kernel

variable [IsStrictOrderedRing K]

/-- Rounding is off by at most one half. -/
theorem abs_roundHalfEven_sub_le (x : K) : |(roundHalfEven x : K) - x| ≤ 1 / 2 := by
  have hx := Int.floor_add_fract x
  have h0 := Int.fract_nonneg x
  have h1 := Int.fract_lt_one x
  rw [abs_le]
  unfold roundHalfEven
  split_ifs <;> push_cast <;> constructor <;> linarith

/-- Rounding keeps the order. -/
theorem roundHalfEven_mono {x y : K} (hxy : x ≤ y) : roundHalfEven x ≤ roundHalfEven y := by
  have hbetween (z : K) : ⌊z⌋ ≤ roundHalfEven z ∧ roundHalfEven z ≤ ⌊z⌋ + 1 := by
    unfold roundHalfEven
    split_ifs <;> omega
  rcases (Int.floor_mono hxy).lt_or_eq with hlt | heq
  · have := (hbetween x).2
    have := (hbetween y).1
    omega
  · have hfract : Int.fract x ≤ Int.fract y := by
      rw [Int.fract, Int.fract, heq]
      linarith
    unfold roundHalfEven
    rw [heq]
    split_ifs <;> first | omega | linarith

/-- Rounding a number that is not negative gives one that is not negative. -/
theorem roundHalfEven_nonneg {x : K} (hx : 0 ≤ x) : 0 ≤ roundHalfEven x := by
  have h := roundHalfEven_mono hx
  simpa [roundHalfEven] using h

/-- The units of the last place as a rounding. -/
theorem natCast_units (places : ℕ) (x : K) :
    ((units places x : ℤ)) = roundHalfEven (|x| * 10 ^ places) :=
  Int.toNat_of_nonneg (roundHalfEven_nonneg (by positivity))

/-- The printed number is off by at most half a unit of the last place. -/
theorem abs_rounded_sub_le (places : ℕ) (x : K) :
    |rounded places x - x| ≤ 1 / 2 / 10 ^ places := by
  have hpow : (0 : K) < 10 ^ places := by positivity
  have hunits : |(units places x : K) - |x| * 10 ^ places| ≤ 1 / 2 := by
    have h := abs_roundHalfEven_sub_le (|x| * 10 ^ places)
    rwa [← natCast_units, Int.cast_natCast] at h
  have habs : |rounded places x - x| = |(units places x : K) / 10 ^ places - abs x| := by
    unfold rounded
    split_ifs with hx
    · rw [abs_of_neg hx, ← abs_neg]
      congr 1
      ring
    · rw [abs_of_nonneg (not_lt.mp hx)]
  have hscale : (units places x : K) / 10 ^ places - |x| =
      ((units places x : K) - |x| * 10 ^ places) / 10 ^ places := by
    field_simp
  rw [habs, hscale, abs_div, abs_of_pos hpow]
  exact div_le_div_of_nonneg_right hunits hpow.le

/-- Printing keeps the order. -/
theorem rounded_mono (places : ℕ) : Monotone (rounded places : K → K) := by
  have hpow : (0 : K) < 10 ^ places := by positivity
  have hunits {x y : K} (h : |x| ≤ |y|) : (units places x : K) ≤ units places y := by
    have hmono := roundHalfEven_mono (mul_le_mul_of_nonneg_right h hpow.le)
    rw [← natCast_units, ← natCast_units] at hmono
    exact_mod_cast hmono
  have hnonneg (x : K) : (0 : K) ≤ units places x / 10 ^ places := by positivity
  intro x y hxy
  unfold rounded
  split_ifs with hx hy hy
  · refine neg_le_neg (div_le_div_of_nonneg_right (hunits ?_) hpow.le)
    rw [abs_of_neg hx, abs_of_neg hy]
    linarith
  · linarith [hnonneg x, hnonneg y]
  · linarith
  · refine div_le_div_of_nonneg_right (hunits ?_) hpow.le
    rwa [abs_of_nonneg (not_lt.mp hx), abs_of_nonneg (not_lt.mp hy)]

/-- A whole number is rounded to itself. -/
theorem roundHalfEven_intCast (n : ℤ) : roundHalfEven (n : K) = n := by
  simp [roundHalfEven]

/-- A number of units of the last place is printed exactly. -/
theorem rounded_natCast_div (places n : ℕ) :
    rounded places ((n : K) / 10 ^ places) = n / 10 ^ places := by
  have hpow : (0 : K) < 10 ^ places := by positivity
  have hnonneg : (0 : K) ≤ n / 10 ^ places := by positivity
  have hunits : units places ((n : K) / 10 ^ places) = n := by
    have hwhole := roundHalfEven_intCast (K := K) n
    rw [Int.cast_natCast] at hwhole
    rw [units, abs_of_nonneg hnonneg, div_mul_cancel₀ _ hpow.ne', hwhole, Int.toNat_natCast]
  rw [rounded, if_neg (not_lt.mpr hnonneg), hunits]

/-- Between a half and one, the nearest integer is one. -/
theorem roundHalfEven_eq_one {x : K} (hlow : 1 - x < x) (hhigh : x < 1) : roundHalfEven x = 1 := by
  have hpos : 0 ≤ x := by linarith
  have hfract : Int.fract x = x := Int.fract_eq_self.mpr ⟨hpos, hhigh⟩
  have hfloor : ⌊x⌋ = 0 := Int.floor_eq_zero_iff.mpr ⟨hpos, hhigh⟩
  rw [roundHalfEven, hfract, hfloor, if_neg hlow.not_gt, if_pos hlow, zero_add]

/-- A number between a half and one unit of the last place is printed as one unit. -/
theorem rounded_eq_unit {places : ℕ} {x : K} (hlow : 1 - x * 10 ^ places < x * 10 ^ places)
    (hhigh : x * 10 ^ places < 1) : rounded places x = 1 / 10 ^ places := by
  have hpow : (0 : K) < 10 ^ places := by positivity
  have hpos : 0 < x := by
    by_contra hneg
    have hproduct := mul_nonpos_of_nonpos_of_nonneg (not_lt.mp hneg) hpow.le
    linarith
  rw [rounded, if_neg hpos.not_gt, units, abs_of_pos hpos, roundHalfEven_eq_one hlow hhigh]
  norm_num

/-- Printing a printed number changes nothing. -/
theorem rounded_rounded (places : ℕ) (x : K) : rounded places (rounded places x) =
    rounded places x := by
  have hpow : (0 : K) < 10 ^ places := by positivity
  have habs : |rounded places x| * 10 ^ places = units places x := by
    unfold rounded
    split_ifs
    · rw [abs_neg, abs_of_nonneg (by positivity), div_mul_cancel₀ _ hpow.ne']
    · rw [abs_of_nonneg (by positivity), div_mul_cancel₀ _ hpow.ne']
  have hunits : units places (rounded places x) = units places x := by
    rw [units, habs]
    have hwhole := roundHalfEven_intCast (K := K) (units places x)
    rw [Int.cast_natCast] at hwhole
    rw [hwhole, Int.toNat_natCast]
  have hdiv : |rounded places x| = units places x / 10 ^ places := by
    rw [← habs, mul_div_cancel_right₀ _ hpow.ne']
  rw [rounded, hunits, ← hdiv]
  split_ifs with hneg
  · rw [abs_of_neg hneg, neg_neg]
  · exact abs_of_nonneg (not_lt.mp hneg)

end Decimal
