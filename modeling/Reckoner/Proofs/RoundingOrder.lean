import Reckoner.Number.Notation
import Reckoner.Proofs.Rounding

/-! Rounding keeps order. A rounded quotient does not fall when its dividend grows, also where the spacing
of the doubles changes, since no number is rounded past a power of two. So a decimal can be placed among
the doubles by its first digit: one that reaches a power of ten is not nearest to less than that power,
and one that stays below it not to more (`le_nearestUnits_of_place`, `nearestUnits_le_of_place`). Digits
behind a point are never the double that they are without it, unless all of them are zero
(`toBinary64_places_ne`). -/

namespace Reckoner

namespace Binary64

/-- The order of doubles, in which not-a-number has no place and both zeros have one. -/
def le : Binary64 → Binary64 → Prop
  | nan, _ => False
  | _, nan => False
  | infinity true, _ => True
  | _, infinity false => True
  | finite s u _, finite t v _ => signedUnits s u ≤ signedUnits t v
  | _, _ => False

instance : LE Binary64 := ⟨le⟩

instance : LT Binary64 := ⟨fun x y => x ≤ y ∧ ¬y ≤ x⟩

theorem finite_le_finite {s t : Bool} {u v : Nat} {hu : Representable u} {hv : Representable v} :
    finite s u hu ≤ finite t v hv ↔ signedUnits s u ≤ signedUnits t v :=
  Iff.rfl

theorem finite_lt_finite {s t : Bool} {u v : Nat} {hu : Representable u} {hv : Representable v} :
    finite s u hu < finite t v hv ↔ signedUnits s u < signedUnits t v := by
  change signedUnits s u ≤ signedUnits t v ∧ ¬signedUnits t v ≤ signedUnits s u ↔ _
  omega

theorem neg_finite (negative : Bool) {u : Nat} (h : Representable u) :
    -finite negative u h = finite (!negative) u h :=
  rfl

theorem neg_neg (x : Binary64) : - -x = x := by
  cases x with
  | nan => rfl
  | infinity s => cases s <;> rfl
  | finite s u h => cases s <;> rfl

theorem signedUnits_not (negative : Bool) (u : Nat) :
    signedUnits (!negative) u = -signedUnits negative u := by
  cases negative with
  | false => rfl
  | true => exact (Int.neg_neg _).symm

/-- The sign turns the order around. -/
theorem neg_le_neg_iff {x y : Binary64} : -x ≤ -y ↔ y ≤ x := by
  cases x with
  | nan => cases y <;> rfl
  | infinity s =>
      cases y with
      | nan => rfl
      | infinity t => cases s <;> cases t <;> rfl
      | finite t v hv => cases s <;> rfl
  | finite s u hu =>
      cases y with
      | nan => rfl
      | infinity t => cases t <;> rfl
      | finite t v hv =>
          rw [neg_finite, neg_finite, finite_le_finite, finite_le_finite, signedUnits_not, signedUnits_not]
          exact Int.neg_le_neg_iff

theorem neg_lt_neg_iff {x y : Binary64} : -x < -y ↔ y < x :=
  and_congr neg_le_neg_iff (not_congr neg_le_neg_iff)

theorem roundDiv_le_succ (n d : Nat) : roundDiv n d ≤ n / d + 1 := by
  simp only [roundDiv]
  split
  · exact Nat.le_succ _
  · split
    · exact Nat.le_refl _
    · omega

theorem roundDiv_mono {n n' : Nat} (h : n ≤ n') (d : Nat) : roundDiv n d ≤ roundDiv n' d := by
  rcases Nat.lt_or_eq_of_le (Nat.div_le_div_right h : n / d ≤ n' / d) with hlt | heq
  · exact Nat.le_trans (roundDiv_le_succ n d) (Nat.le_trans hlt (div_le_roundDiv n' d))
  · have hrest : n % d ≤ n' % d := by
      have hn := Nat.div_add_mod n d
      have hn' := Nat.div_add_mod n' d
      rw [heq] at hn
      omega
    simp only [roundDiv, heq]
    split_ifs <;> omega

theorem log2_mono {n n' : Nat} (h : n ≤ n') : n.log2 ≤ n'.log2 := by
  rcases Nat.eq_zero_or_pos n with rfl | hpos
  · exact Nat.zero_le _
  · exact (Nat.le_log2 (by omega)).2 (Nat.le_trans (Nat.log2_self_le (by omega)) h)

/-- A number that a power of two reaches is not rounded past it. -/
theorem nearestUnits_le_two_pow {n d e : Nat} (hd : 0 < d) (h : n ≤ 2 ^ e * d) :
    nearestUnits n d ≤ 2 ^ e := by
  have hquotient : n / d ≤ 2 ^ e := by
    have hdiv := Nat.div_le_div_right (c := d) h
    rwa [Nat.mul_div_cancel _ hd] at hdiv
  have hplace : (n / d).log2 ≤ e := by
    have hlog := log2_mono hquotient
    rwa [Nat.log2_two_pow] at hlog
  have hdvd : 2 ^ ((n / d).log2 - 52) ∣ 2 ^ e :=
    Nat.pow_dvd_pow 2 (Nat.le_trans (Nat.sub_le _ _) hplace)
  have hspacing : 0 < 2 ^ ((n / d).log2 - 52) := Nat.two_pow_pos _
  simp only [nearestUnits, Nat.pow_eq]
  generalize 2 ^ ((n / d).log2 - 52) = spacing at hdvd hspacing ⊢
  obtain ⟨count, hcount⟩ := hdvd
  have hbound : n ≤ count * (d * spacing) := by
    rw [hcount] at h
    calc n ≤ spacing * count * d := h
      _ = count * (d * spacing) := by ac_rfl
  calc roundDiv n (d * spacing) * spacing
      ≤ roundDiv (count * (d * spacing)) (d * spacing) * spacing :=
        Nat.mul_le_mul_right _ (roundDiv_mono hbound _)
    _ = 2 ^ e := by rw [roundDiv_mul_self count (Nat.mul_pos hd hspacing), hcount, Nat.mul_comm]

theorem nearestUnits_mono {n n' d : Nat} (hd : 0 < d) (h : n ≤ n') :
    nearestUnits n d ≤ nearestUnits n' d := by
  have hquotient : n / d ≤ n' / d := Nat.div_le_div_right h
  rcases Nat.lt_or_eq_of_le (log2_mono hquotient) with hlt | heq
  · have hne : n' / d ≠ 0 := by
      intro hzero
      rw [hzero] at hlt
      exact Nat.not_lt_zero _ hlt
    have hbelow : n ≤ 2 ^ (n' / d).log2 * d := by
      have hless : n / d < 2 ^ (n' / d).log2 :=
        Nat.lt_of_lt_of_le Nat.lt_log2_self (Nat.pow_le_pow_right (by decide) hlt)
      exact Nat.le_of_lt ((Nat.div_lt_iff_lt_mul hd).1 hless)
    have habove : 2 ^ (n' / d).log2 * d ≤ n' :=
      (Nat.le_div_iff_mul_le hd).1 (Nat.log2_self_le hne)
    exact Nat.le_trans (nearestUnits_le_two_pow hd hbelow) (two_pow_le_nearestUnits hd habove)
  · simp only [nearestUnits, heq]
    exact Nat.mul_le_mul_right _ (roundDiv_mono h _)

/-- A multiple of a spacing holds at most 53 bits when it does not pass 53 places above the spacing. -/
theorem dvd_of_le_places {units s : Nat} (hdvd : 2 ^ s ∣ units) (hle : units ≤ 2 ^ (53 + s)) :
    2 ^ (units.log2 - 52) ∣ units := by
  rcases Nat.lt_or_eq_of_le hle with hlt | rfl
  · rcases Nat.eq_zero_or_pos units with rfl | hpos
    · exact Nat.dvd_zero _
    · have hlog : units.log2 < 53 + s := (Nat.log2_lt (Nat.ne_of_gt hpos)).2 hlt
      exact Nat.dvd_trans (Nat.pow_dvd_pow 2 (by omega)) hdvd
  · rw [Nat.log2_two_pow]
    exact Nat.pow_dvd_pow 2 (by omega)

/-- What is rounded is held by a double, unless it is too large. -/
theorem representable_nearestUnits {n d : Nat} (h : nearestUnits n d < overflowUnits) :
    Representable (nearestUnits n d) := by
  refine ⟨h, ?_⟩
  have hquotient : n / d < 2 ^ (53 + ((n / d).log2 - 52)) :=
    Nat.lt_of_lt_of_le Nat.lt_log2_self (Nat.pow_le_pow_right (by decide) (by omega))
  simp only [nearestUnits, Nat.pow_eq]
  generalize (n / d).log2 - 52 = s at hquotient ⊢
  apply dvd_of_le_places (Nat.dvd_mul_left _ _)
  have hkept : n / d / 2 ^ s < 2 ^ 53 := by
    rw [Nat.div_lt_iff_lt_mul (Nat.two_pow_pos s), ← Nat.pow_add]
    exact hquotient
  calc roundDiv n (d * 2 ^ s) * 2 ^ s ≤ (n / (d * 2 ^ s) + 1) * 2 ^ s :=
        Nat.mul_le_mul_right _ (roundDiv_le_succ _ _)
    _ = (n / d / 2 ^ s + 1) * 2 ^ s := by rw [Nat.div_div_eq_div_mul]
    _ ≤ 2 ^ 53 * 2 ^ s := Nat.mul_le_mul_right _ hkept
    _ = 2 ^ (53 + s) := (Nat.pow_add _ _ _).symm

theorem zero_eq : ∃ h : Representable 0, (0 : Binary64) = finite false 0 h := by
  refine ⟨?_, ?_⟩ <;> decide +kernel

theorem ofUnits_ne_of_lt {negative : Bool} {u v : Nat} (hu : Representable u) (h : u < v) :
    ofUnits negative u ≠ ofUnits negative v := by
  rw [ofUnits_of_representable negative hu]
  by_cases hv : Representable v
  · rw [ofUnits_of_representable negative hv]
    intro heq
    injection heq with _ hunits
    exact Nat.ne_of_lt h hunits
  · rw [ofUnits, dif_neg hv]
    rintro ⟨⟩

theorem finite_add_finite {s t : Bool} {u v : Nat} {hu : Representable u} {hv : Representable v} :
    finite s u hu + finite t v hv =
      if signedUnits s u + signedUnits t v = 0 then ofUnits (s && t) 0
      else ofUnitRatio (signedUnits s u + signedUnits t v < 0) (signedUnits s u + signedUnits t v).natAbs 1 :=
  rfl

theorem finite_mul_finite {s t : Bool} {u v : Nat} {hu : Representable u} {hv : Representable v} :
    finite s u hu * finite t v hv = ofUnitRatio (s != t) (u * v) unitsPerOne := by
  change mul _ _ = _
  rw [mul]

theorem finite_div_finite {s t : Bool} {u v : Nat} {hu : Representable u} {hv : Representable v} :
    finite s u hu / finite t v hv =
      if v = 0 then (if u = 0 then nan else infinity (s != t)) else ofRatio (s != t) u v :=
  rfl

theorem finite_div_infinity {s t : Bool} {u : Nat} {hu : Representable u} :
    finite s u hu / infinity t = ofUnits (s != t) 0 := by
  change div _ _ = _
  rw [div]

end Binary64

namespace Decimal

theorem nearestUnits_mono {n n' : Nat} (h : n ≤ n') (e : Int) :
    nearestUnits ⟨n, e⟩ ≤ nearestUnits ⟨n', e⟩ := by
  rw [nearestUnits_eq, nearestUnits_eq]
  refine Binary64.nearestUnits_mono (Nat.pow_pos (by decide)) ?_
  exact Nat.mul_le_mul_right _ (Nat.mul_le_mul_right _ h)

/-- The place of the first digit. -/
def place (d : Decimal) : Int :=
  d.exponent + (digitText d.digits).length - 1

theorem length_digitText_pos (n : Nat) : 0 < (digitText n).length :=
  Nat.length_toDigits_pos

theorem lt_pow_length_digitText (n : Nat) : n < 10 ^ (digitText n).length :=
  (Nat.length_toDigits_le_iff (by decide) (length_digitText_pos n)).1 (Nat.le_refl _)

theorem pow_length_digitText_le {n : Nat} (hn : n ≠ 0) : 10 ^ ((digitText n).length - 1) ≤ n := by
  rcases Nat.eq_zero_or_pos ((digitText n).length - 1) with hzero | hpos
  · rw [hzero]
    exact Nat.pos_of_ne_zero hn
  · refine Nat.le_of_not_lt fun hlt => ?_
    have hlength : (digitText n).length ≤ (digitText n).length - 1 :=
      (Nat.length_toDigits_le_iff (by decide) hpos).2 hlt
    omega

/-- Two decimals brought to one exponent, the smaller of theirs, compare by their digits. -/
theorem nearestUnits_le_of_digits {n n' : Nat} {e e' : Int}
    (h : n * 10 ^ (e - e').toNat ≤ n' * 10 ^ (e' - e).toNat) :
    nearestUnits ⟨n, e⟩ ≤ nearestUnits ⟨n', e'⟩ := by
  have hplace : e - ((e - e').toNat : Int) = e' - ((e' - e).toNat : Int) := by omega
  calc nearestUnits ⟨n, e⟩ = nearestUnits ⟨n * 10 ^ (e - e').toNat, e - ((e - e').toNat : Int)⟩ :=
        (nearestUnits_scale n _ e).symm
    _ ≤ nearestUnits ⟨n' * 10 ^ (e' - e).toNat, e - ((e - e').toNat : Int)⟩ := nearestUnits_mono h _
    _ = nearestUnits ⟨n', e'⟩ := by rw [hplace, nearestUnits_scale]

/-- A decimal whose first digit stands at a place or above is not nearest to less than that power of
ten. -/
theorem le_nearestUnits_of_place {d : Decimal} {p : Int} (hd : d.digits ≠ 0) (h : p ≤ d.place) :
    nearestUnits ⟨1, p⟩ ≤ d.nearestUnits := by
  obtain ⟨n, e⟩ := d
  have hplaces : (p - e).toNat ≤ ((digitText n).length - 1) + (e - p).toNat := by
    simp only [place] at h
    have := length_digitText_pos n
    omega
  refine nearestUnits_le_of_digits ?_
  rw [Nat.one_mul]
  calc 10 ^ (p - e).toNat ≤ 10 ^ ((digitText n).length - 1 + (e - p).toNat) :=
        Nat.pow_le_pow_right (by decide) hplaces
    _ = 10 ^ ((digitText n).length - 1) * 10 ^ (e - p).toNat := Nat.pow_add _ _ _
    _ ≤ n * 10 ^ (e - p).toNat := Nat.mul_le_mul_right _ (pow_length_digitText_le hd)

/-- A decimal whose first digit stands below a place is not nearest to more than that power of ten. -/
theorem nearestUnits_le_of_place {d : Decimal} {p : Int} (h : d.place < p) :
    d.nearestUnits ≤ nearestUnits ⟨1, p⟩ := by
  obtain ⟨n, e⟩ := d
  have hplaces : (digitText n).length + (e - p).toNat ≤ (p - e).toNat := by
    simp only [place] at h
    have := length_digitText_pos n
    omega
  refine nearestUnits_le_of_digits ?_
  rw [Nat.one_mul]
  calc n * 10 ^ (e - p).toNat ≤ 10 ^ (digitText n).length * 10 ^ (e - p).toNat :=
        Nat.mul_le_mul_right _ (Nat.le_of_lt (lt_pow_length_digitText n))
    _ = 10 ^ ((digitText n).length + (e - p).toNat) := (Nat.pow_add _ _ _).symm
    _ ≤ 10 ^ (p - e).toNat := Nat.pow_le_pow_right (by decide) hplaces

open Binary64 (unitsPerOne overflowUnits ofUnits)

theorem two_pow_le_nearestUnits_whole {n place e : Nat} (hone : unitsPerOne = 2 ^ place) (h : 2 ^ e ≤ n) :
    2 ^ (e + place) ≤ nearestUnits ⟨n, 0⟩ := by
  rw [nearestUnits_eq]
  refine Binary64.two_pow_le_nearestUnits (Nat.pow_pos (by decide)) ?_
  rw [hone]
  have hle := Nat.mul_le_mul_right (2 ^ place) h
  simpa [Nat.pow_add] using hle

theorem nearestUnits_places_le {n k place : Nat} (hone : unitsPerOne = 2 ^ place) {e : Nat}
    (h : n * 2 ^ place ≤ 2 ^ e * 10 ^ k) : nearestUnits ⟨n, -k⟩ ≤ 2 ^ e := by
  have hwhole : (-(k : Int)).toNat = 0 := by omega
  have hplaces : (- -(k : Int)).toNat = k := by omega
  rw [nearestUnits_eq]
  simp only [hwhole, hplaces, Nat.pow_zero, Nat.mul_one, hone]
  exact Binary64.nearestUnits_le_two_pow (Nat.pow_pos (by decide)) h

/-- Digits behind a point come to one at most, so they are rounded to less than the whole number that they
write without the point. -/
theorem nearestUnits_places_lt {n k : Nat} (hn : n ≠ 0) (hlt : n < 10 ^ k) :
    nearestUnits ⟨n, -k⟩ < nearestUnits ⟨n, 0⟩ ∧ nearestUnits ⟨n, -k⟩ < overflowUnits := by
  obtain ⟨place, hplace, hone, hoverflow⟩ := exists_place
  obtain ⟨below, hbelow⟩ : ∃ below, place = below + 1 := ⟨1073, hplace⟩
  have hbound : 2 ^ place < overflowUnits := by
    rw [hoverflow]
    exact Nat.pow_lt_pow_right (by decide) (Nat.lt_add_of_pos_left (by decide))
  rcases Nat.eq_or_lt_of_le (Nat.pos_of_ne_zero hn) with hsingle | hmore
  · have hpower : 2 ≤ 10 ^ k := by rwa [← hsingle] at hlt
    have hhalf : nearestUnits ⟨n, -k⟩ ≤ 2 ^ below := by
      apply nearestUnits_places_le hone
      rw [← hsingle, Nat.one_mul, hbelow, Nat.pow_succ]
      exact Nat.mul_le_mul_left _ hpower
    have hless : 2 ^ below < 2 ^ place := Nat.pow_lt_pow_right (by decide) (hbelow ▸ Nat.lt_succ_self below)
    have hwhole : 2 ^ place ≤ nearestUnits ⟨n, 0⟩ := by
      rw [← Nat.zero_add place]
      exact two_pow_le_nearestUnits_whole hone (Nat.le_of_eq hsingle)
    have hsmall := Nat.lt_of_le_of_lt hhalf hless
    exact ⟨Nat.lt_of_lt_of_le hsmall hwhole, Nat.lt_trans hsmall hbound⟩
  · have hunit : nearestUnits ⟨n, -k⟩ ≤ 2 ^ place := by
      apply nearestUnits_places_le hone
      rw [Nat.mul_comm]
      exact Nat.mul_le_mul_left _ (Nat.le_of_lt hlt)
    have hwhole : 2 ^ (1 + place) ≤ nearestUnits ⟨n, 0⟩ := two_pow_le_nearestUnits_whole hone hmore
    have hless : 2 ^ place < 2 ^ (1 + place) :=
      Nat.pow_lt_pow_right (by decide) (Nat.lt_add_of_pos_left (by decide))
    exact ⟨Nat.lt_of_le_of_lt hunit (Nat.lt_of_lt_of_le hless hwhole), Nat.lt_of_le_of_lt hunit hbound⟩

/-- So they are another double with the point than without it. -/
theorem toBinary64_places_ne {n k : Nat} (hn : n ≠ 0) (hlt : n < 10 ^ k) (negative : Bool) :
    toBinary64 ⟨n, -k⟩ negative ≠ toBinary64 ⟨n, 0⟩ negative := by
  obtain ⟨hless, hbound⟩ := nearestUnits_places_lt hn hlt
  rw [toBinary64_eq_ofUnits, toBinary64_eq_ofUnits]
  exact Binary64.ofUnits_ne_of_lt (Binary64.representable_nearestUnits hbound) hless

theorem toBinary64_whole_eq_zero_iff {n : Nat} : toBinary64 ⟨n, 0⟩ false = 0 ↔ n = 0 := by
  have hzero : toBinary64 ⟨0, 0⟩ false = 0 := by decide +kernel
  constructor
  · intro h
    by_contra hn
    obtain ⟨place, -, hone, -⟩ := exists_place
    have hwhole := two_pow_le_nearestUnits_whole (n := n) (e := 0) hone (Nat.pos_of_ne_zero hn)
    have hpos : 0 < nearestUnits ⟨n, 0⟩ := Nat.lt_of_lt_of_le (Nat.two_pow_pos _) hwhole
    have hrep : Binary64.Representable 0 := by decide +kernel
    have hdiffer : ofUnits false 0 ≠ ofUnits false (nearestUnits ⟨n, 0⟩) :=
      Binary64.ofUnits_ne_of_lt hrep hpos
    apply hdiffer
    rw [← toBinary64_eq_ofUnits, h, ← hzero, toBinary64_eq_ofUnits, nearestUnits_zero]
  · rintro rfl
    exact hzero

end Decimal

end Reckoner
