import Mathlib.Data.List.Induction
import SnapStore.Proofs.Time.Reading
import SnapStore.Text.Utf8

/-!
# The order of timestamps

Between the years 0 and 9999, a later timestamp is a later text, byte by byte
(`SnapStore.Timestamp.compare_text`). The numbers of such a text have fixed widths, so that they are
compared as numbers are, the first that differ deciding; and a date and a time of day are numbers
too, to which their parts are the digits.

With what is read back, this makes the text a name of the millisecond
(`SnapStore.Timestamp.text?_of_representable`). The moments that have a text are those of certain
years, the first and the last of them included (`SnapStore.Timestamp.representable_iff`).
-/

namespace SnapStore

/-! ### Comparing digit by digit -/

/-- A number is compared by what is left of its last place, and then by its last place. -/
theorem compare_mul_add {n a b c d : Int} (hb : 0 ≤ b ∧ b < n) (hd : 0 ≤ d ∧ d < n) :
    compare (a * n + b) (c * n + d) = (compare a c).then (compare b d) := by
  rcases h : compare a c with _ | _ | _
  · have hlt : a + 1 ≤ c := Int.compare_eq_lt.1 h
    have hmul := Int.mul_le_mul_of_nonneg_right hlt (show 0 ≤ n by omega)
    rw [Int.add_mul] at hmul
    exact Int.compare_eq_lt.2 (by omega)
  · obtain rfl := Int.compare_eq_eq.1 h
    rw [Ordering.eq_then]
    rcases h' : compare b d with _ | _ | _
    · exact Int.compare_eq_lt.2 (by have := Int.compare_eq_lt.1 h'; omega)
    · exact Int.compare_eq_eq.2 (by have := Int.compare_eq_eq.1 h'; omega)
    · exact Int.compare_eq_gt.2 (by have := Int.compare_eq_gt.1 h'; omega)
  · have hlt : c + 1 ≤ a := Int.compare_eq_gt.1 h
    have hmul := Int.mul_le_mul_of_nonneg_right hlt (show 0 ≤ n by omega)
    rw [Int.add_mul] at hmul
    exact Int.compare_eq_gt.2 (by omega)

/-- Of two byte strings, starts of the same length are compared first. -/
theorem Bytes.compare_append_of_length_eq {a b : Bytes} (h : a.length = b.length) (x y : Bytes) :
    compare (a ++ x) (b ++ y) = (compare a b).then (compare x y) := by
  induction a generalizing b with
  | nil =>
    rw [List.length_nil] at h
    rw [List.eq_nil_of_length_eq_zero h.symm]
    rfl
  | cons c a ih =>
    cases b with
    | nil => simp at h
    | cons d b =>
      rw [List.cons_append, List.cons_append, List.compare_cons_cons, List.compare_cons_cons,
        ih (by simpa using h), Ordering.then_assoc]

/-- Two texts are of the same length in bytes, and this is their order. -/
structure Aligned (a b : String) (order : Ordering) : Prop where
  length_eq : (Utf8.encode a).length = (Utf8.encode b).length
  compare_eq : compare (Utf8.encode a) (Utf8.encode b) = order

namespace Aligned

theorem refl (a : String) : Aligned a a .eq := ⟨rfl, Std.ReflCmp.compare_self⟩

theorem append {a b c d : String} {order order' : Ordering} (h : Aligned a b order)
    (h' : Aligned c d order') : Aligned (a ++ c) (b ++ d) (order.then order') where
  length_eq := by
    rw [Utf8.encode_append, Utf8.encode_append, List.length_append, List.length_append, h.length_eq,
      h'.length_eq]
  compare_eq := by
    rw [Utf8.encode_append, Utf8.encode_append, Bytes.compare_append_of_length_eq h.length_eq,
      h.compare_eq, h'.compare_eq]

end Aligned

/-! ### Numbers -/

/-- The characters of the ten digits are in the order of the digits. -/
theorem aligned_digitChar : ∀ i < 10, ∀ j < 10,
    Aligned (String.ofList [Nat.digitChar i]) (String.ofList [Nat.digitChar j])
      (compare (i : Int) j) := by
  have h : ∀ i < 10, ∀ j < 10,
      (Utf8.encode (String.ofList [Nat.digitChar i])).length =
          (Utf8.encode (String.ofList [Nat.digitChar j])).length ∧
        compare (Utf8.encode (String.ofList [Nat.digitChar i]))
          (Utf8.encode (String.ofList [Nat.digitChar j])) = compare (i : Int) j := by
    decide
  exact fun i hi j hj => ⟨(h i hi j hj).1, (h i hi j hj).2⟩

theorem exists_digitChar {c : Char} (h : c.isDigit) : ∃ i < 10, c = Nat.digitChar i := by
  rw [Char.isDigit, Bool.and_eq_true, decide_eq_true_eq, decide_eq_true_eq] at h
  have hlow : 48 ≤ c.toNat := h.1
  have hhigh : c.toNat ≤ 57 := h.2
  refine ⟨c.toNat - 48, by omega, Char.toNat_inj.1 ?_⟩
  rw [Nat.toNat_digitChar_of_lt_ten (by omega)]
  omega

/-- Digits are compared as the numbers that they tell. -/
theorem aligned_digits {ds es : List Char} (hds : ∀ c ∈ ds, c.isDigit) (hes : ∀ c ∈ es, c.isDigit)
    (h : ds.length = es.length) : Aligned (String.ofList ds) (String.ofList es)
      (compare (Nat.ofDigitChars 10 ds 0 : Int) (Nat.ofDigitChars 10 es 0)) := by
  induction ds using List.reverseRecOn generalizing es with
  | nil =>
    rw [List.eq_nil_of_length_eq_zero h.symm]
    exact Aligned.refl _
  | append_singleton ds c ih =>
    obtain rfl | ⟨es, e, rfl⟩ := List.eq_nil_or_concat es
    · simp at h
    · rw [List.concat_eq_append] at hes h ⊢
      obtain ⟨hds', hc⟩ := List.forall_mem_append.1 hds
      obtain ⟨hes', he⟩ := List.forall_mem_append.1 hes
      obtain ⟨i, hi, rfl⟩ := exists_digitChar (hc c (List.mem_singleton_self c))
      obtain ⟨j, hj, rfl⟩ := exists_digitChar (he e (List.mem_singleton_self e))
      have hlast := (ih hds' hes' (by simpa using h)).append (aligned_digitChar i hi j hj)
      rw [← compare_mul_add (n := 10) (by omega) (by omega)] at hlast
      simp only [String.ofList_append, Nat.ofDigitChars_append,
        Nat.ofDigitChars_cons_digitChar_of_lt_ten hi, Nat.ofDigitChars_cons_digitChar_of_lt_ten hj,
        Nat.ofDigitChars_nil]
      push_cast
      rwa [Int.mul_comm 10, Int.mul_comm 10]

/-- Numbers of one width are compared as numbers. -/
theorem Timestamp.aligned_padded {width m n : Nat} (hwidth : 0 < width) (hm : m < 10 ^ width)
    (hn : n < 10 ^ width) : Aligned (padded width m) (padded width n) (compare (m : Int) n) := by
  have hdigits : ∀ k, ∀ c ∈ (padded width k).toList, c.isDigit := fun _ _ => isDigit_of_mem_padded
  have h := aligned_digits (hdigits m) (hdigits n)
    ((length_padded hwidth hm).trans (length_padded hwidth hn).symm)
  rwa [ofDigitChars_padded, ofDigitChars_padded, String.ofList_toList, String.ofList_toList] at h

/-- One number more, after the same separator. -/
theorem Aligned.append_number {a b : String} {order : Ordering} (h : Aligned a b order)
    (separator : String) {width m n : Nat} (hwidth : 0 < width) (hm : m < 10 ^ width)
    (hn : n < 10 ^ width) :
    Aligned (a ++ separator ++ Timestamp.padded width m)
      (b ++ separator ++ Timestamp.padded width n) (order.then (compare (m : Int) n)) := by
  have hseparated := h.append (Aligned.refl separator)
  rw [Ordering.then_eq] at hseparated
  exact hseparated.append (Timestamp.aligned_padded hwidth hm hn)

namespace Timestamp

/-! ### Dates and times of day -/

theorem yearText_natCast {y : Nat} (h : y ≤ 9999) : yearText y = padded 4 y := by
  rw [yearText, if_neg (by omega), if_neg (by omega), Int.natAbs_natCast]

theorem aligned_dateText {d e : Date} (hd : d.IsValid) (he : e.IsValid)
    (hdyear : 0 ≤ d.year ∧ d.year ≤ 9999) (heyear : 0 ≤ e.year ∧ e.year ≤ 9999) :
    Aligned (dateText d) (dateText e) (compare d.rank e.rank) := by
  have hdmonth := hd.month_le
  have hemonth := he.month_le
  have hdday := hd.day_le.trans (Date.monthLength_le d.year d.month)
  have heday := he.day_le.trans (Date.monthLength_le e.year e.month)
  obtain ⟨y, hy⟩ := Int.eq_ofNat_of_zero_le hdyear.1
  obtain ⟨z, hz⟩ := Int.eq_ofNat_of_zero_le heyear.1
  rw [dateText, dateText, Date.rank, Date.rank, hy, hz, yearText_natCast (by omega),
    yearText_natCast (by omega), compare_mul_add (by omega) (by omega),
    compare_mul_add (by omega) (by omega)]
  exact ((aligned_padded (by omega) (by omega) (by omega)).append_number "-" (by omega) (by omega)
    (by omega)).append_number "-" (by omega) (by omega) (by omega)

/-- A time of day from its parts. -/
theorem eq_clock (n : Nat) : (n : Int) =
    (((n / 3600000 : Nat) * 60 + (n / 60000 % 60 : Nat)) * 60 + (n / 1000 % 60 : Nat)) * 1000 +
      (n % 1000 : Nat) := by
  omega

theorem aligned_clockText {m n : Nat} (hm : m < 86400000) (hn : n < 86400000) :
    Aligned (clockText m) (clockText n) (compare (m : Int) n) := by
  rw [clockText, clockText, eq_clock m, eq_clock n, compare_mul_add (by omega) (by omega),
    compare_mul_add (by omega) (by omega), compare_mul_add (by omega) (by omega)]
  exact (((aligned_padded (by omega) (by omega) (by omega)).append_number ":" (by omega) (by omega)
    (by omega)).append_number ":" (by omega) (by omega) (by omega)).append_number "." (by omega)
      (by omega) (by omega)

/-- Days are compared as their dates. -/
theorem compare_rank_ofDay (m n : Int) :
    compare (Date.ofDay m).rank (Date.ofDay n).rank = compare m n := by
  rcases h : compare m n with _ | _ | _
  · exact Int.compare_eq_lt.2 (Date.rank_ofDay_lt_iff.2 (Int.compare_eq_lt.1 h))
  · obtain rfl := Int.compare_eq_eq.1 h
    exact Int.compare_eq_eq.2 rfl
  · exact Int.compare_eq_gt.2 (Date.rank_ofDay_lt_iff.2 (Int.compare_eq_gt.1 h))

/-- The year that the moment lies in. -/
def year (t : Timestamp) : Int := (Date.ofDay (t.millis / millisPerDay)).year

/-- **Between the years 0 and 9999, later texts are later moments.** -/
theorem compare_text {t u : Timestamp} (ht : 0 ≤ t.year ∧ t.year ≤ 9999)
    (hu : 0 ≤ u.year ∧ u.year ≤ 9999) :
    compare (Utf8.encode t.text) (Utf8.encode u.text) = compare t.millis u.millis := by
  have hpos : 0 < millisPerDay := by decide
  have hrest := fun m : Int => Int.emod_nonneg m hpos.ne'
  have hrest' := fun m : Int => Int.emod_lt_of_pos m hpos
  have hclock : ∀ m : Int, ((m % millisPerDay).toNat : Int) = m % millisPerDay :=
    fun m => Int.toNat_of_nonneg (hrest m)
  have hlt : ∀ m : Int, (m % millisPerDay).toNat < 86400000 := fun m => by
    have := hrest' m
    unfold millisPerDay at this ⊢
    omega
  have h := (((aligned_dateText (Date.isValid_ofDay _) (Date.isValid_ofDay _) ht hu).append
    (Aligned.refl "T")).append (aligned_clockText (hlt t.millis) (hlt u.millis))).append
      (Aligned.refl "Z")
  rw [Ordering.then_eq, Ordering.then_eq, compare_rank_ofDay, hclock, hclock,
    ← compare_mul_add (n := millisPerDay) ⟨hrest _, hrest' _⟩ ⟨hrest _, hrest' _⟩,
    Int.ediv_mul_add_emod, Int.ediv_mul_add_emod] at h
  exact h.compare_eq

/-! ### What a text tells -/

/-- The moments that have a text are those of the years -262143 to 262142. -/
theorem representable_iff {t : Timestamp} :
    t.Representable ↔ -262143 ≤ t.year ∧ t.year ≤ 262142 := by
  have hfirst := Date.le_year_ofDay_iff (-262143) (t.millis / millisPerDay)
  have hlast := Date.le_year_ofDay_iff 262143 (t.millis / millisPerDay)
  rw [show Date.toDay ⟨-262143, 1, 1⟩ = -96465292 by decide] at hfirst
  rw [show Date.toDay ⟨262143, 1, 1⟩ = 95026237 by decide] at hlast
  unfold Representable
  unfold millisPerDay millis at hfirst hlast
  unfold year millisPerDay millis
  omega

/-- **A text tells the millisecond.** Dates are those of the proleptic Gregorian calendar. Every
moment in the range has a text; two have the same if and only if they lie in the same millisecond;
the text is read back as the start of that millisecond; and between the years 0 and 9999 the texts,
as bytes, are in the order of the milliseconds. -/
theorem text?_of_representable {t u : Timestamp} (ht : t.Representable) (hu : u.Representable) :
    Date.IsGregorian Date.ofDay ∧
      ∃ a b, t.text? = some a ∧ u.text? = some b ∧ (a = b ↔ t.millis = u.millis) ∧
        ofText? a = some ⟨t.millis * 1000000⟩ ∧
        (0 ≤ t.year ∧ t.year ≤ 9999 → 0 ≤ u.year ∧ u.year ≤ 9999 →
          compare (Utf8.encode a) (Utf8.encode b) = compare t.millis u.millis) := by
  refine ⟨Date.isGregorian_iff.2 rfl, t.text, u.text, if_pos ht, if_pos hu,
    ⟨fun h => ?_, fun h => ?_⟩, ofText?_text t, compare_text⟩
  · have hread : ofText? t.text = ofText? u.text := by rw [h]
    rw [ofText?_text, ofText?_text] at hread
    simp only [Option.some.injEq, mk.injEq] at hread
    omega
  · rw [text, text, h]

/-- The last nanosecond before 1970 against the start of the year 1. -/
theorem text?_of_representable_before_epoch :
    (⟨-1⟩ : Timestamp).Representable ∧ (⟨-62135596800000000000⟩ : Timestamp).Representable ∧
      (0 ≤ (⟨-1⟩ : Timestamp).year ∧ (⟨-1⟩ : Timestamp).year ≤ 9999) ∧
      (0 ≤ (⟨-62135596800000000000⟩ : Timestamp).year ∧
        (⟨-62135596800000000000⟩ : Timestamp).year ≤ 9999) ∧
      "1969-12-31T23:59:59.999Z" ≠ "0001-01-01T00:00:00.000Z" ∧
      ofText? "1969-12-31T23:59:59.999Z" = some ⟨-1000000⟩ ∧
      compare (Utf8.encode "1969-12-31T23:59:59.999Z") (Utf8.encode "0001-01-01T00:00:00.000Z") =
        .gt := by
  have ht : (⟨-1⟩ : Timestamp).Representable := by decide
  have hu : (⟨-62135596800000000000⟩ : Timestamp).Representable := by decide
  have hyear : 0 ≤ (⟨-1⟩ : Timestamp).year ∧ (⟨-1⟩ : Timestamp).year ≤ 9999 := by decide
  have hyear' : 0 ≤ (⟨-62135596800000000000⟩ : Timestamp).year ∧
      (⟨-62135596800000000000⟩ : Timestamp).year ≤ 9999 := by decide
  obtain ⟨-, a, b, ha, hb, hiff, hread, horder⟩ := text?_of_representable ht hu
  obtain rfl : "1969-12-31T23:59:59.999Z" = a :=
    Option.some.inj ((show _ = (⟨-1⟩ : Timestamp).text? by decide).trans ha)
  obtain rfl : "0001-01-01T00:00:00.000Z" = b :=
    Option.some.inj ((show _ = (⟨-62135596800000000000⟩ : Timestamp).text? by decide).trans hb)
  exact ⟨ht, hu, hyear, hyear', fun h => absurd (hiff.1 h) (by decide), hread, horder hyear hyear'⟩

end Timestamp

end SnapStore
