import SnapStore.Proofs.Time.Calendar
import SnapStore.Time.Timestamp

/-!
# Reading timestamps

A timestamp of RFC 3339 in universal time is read by its grammar (`SnapStore.Timestamp.ofText?`):
numbers of two digits, a year of four, and any number of digits after the point of the seconds, if
there is a point. A year may carry a sign, and then it has four digits or more. What is read is
taken off the front of the text, which leaves the rest for the next part (`SnapStore.Scan`). A date
that the calendar does not have is refused, and so is an hour, a minute or a second that there is
not.

What was written is read back as the start of its millisecond
(`SnapStore.Timestamp.ofText?_text`).
-/

namespace SnapStore

/-- What is read off the front of a text, and what remains of it. -/
abbrev Scan := StateT (List Char) Option

namespace Scan

variable {α β : Type}

/-! ### Parts of a timestamp -/

/-- The given character. -/
def char (c : Char) : Scan Unit
  | [] => none
  | d :: rest => if d = c then some ((), rest) else none

/-- The digits in front of the given character, which is passed. -/
def digits (stop : Char) : Scan (List Char) := fun cs =>
  match cs.dropWhile Char.isDigit with
  | [] => none
  | c :: rest => if c = stop then some (cs.takeWhile Char.isDigit, rest) else none

/-- A number of the given width, in front of the given character. -/
def number (width : Nat) (stop : Char) : Scan Nat := do
  let ds ← digits stop
  guard (ds.length = width)
  pure (Nat.ofDigitChars 10 ds 0)

/-- A number of the given width or more, in front of the given character. -/
def longNumber (width : Nat) (stop : Char) : Scan Nat := do
  let ds ← digits stop
  guard (width ≤ ds.length)
  pure (Nat.ofDigitChars 10 ds 0)

/-- A year, in front of a hyphen. -/
def year : Scan Int :=
  (do char '-'; let n ← longNumber 4 '-'; pure (-n)) <|>
  (do char '+'; let n ← longNumber 4 '-'; pure n) <|>
  (do let n ← number 4 '-'; pure n)

/-- A date. -/
def date : Scan Date := do
  let year ← year
  let month ← number 2 '-'
  let day ← number 2 'T'
  guard (Date.IsValid ⟨year, month, day⟩)
  pure ⟨year, month, day⟩

/-- What is after the point of the seconds, in nanoseconds. -/
def fraction : Scan Nat := do
  let ds ← digits 'Z'
  guard (ds ≠ [])
  pure (Nat.ofDigitChars 10 ds 0 * 1000000000 / 10 ^ ds.length)

/-- The seconds of a minute, in nanoseconds. -/
def seconds : Scan Nat :=
  (do
    let second ← number 2 '.'
    guard (second < 60)
    let nanos ← fraction
    pure (second * 1000000000 + nanos)) <|>
  (do
    let second ← number 2 'Z'
    guard (second < 60)
    pure (second * 1000000000))

/-- A time of day, in nanoseconds. -/
def clock : Scan Nat := do
  let hour ← number 2 ':'
  let minute ← number 2 ':'
  guard (hour < 24 ∧ minute < 60)
  let nanos ← seconds
  pure ((hour * 60 + minute) * 60000000000 + nanos)

/-- A moment. -/
def moment : Scan Timestamp := do
  let date ← date
  let nanos ← clock
  pure ⟨date.toDay * 86400000000000 + nanos⟩

/-! ### One part after another -/

section Run

variable {x y : Scan α} {cs rest : List Char} {a : α}

theorem run_bind_of_run (h : x.run cs = some (a, rest)) (f : α → Scan β) :
    (x >>= f).run cs = (f a).run rest := by
  rw [StateT.run_bind, h]
  rfl

theorem run_guard_bind {p : Prop} [Decidable p] (h : p) (f : Unit → Scan α) (cs : List Char) :
    (guard p >>= f).run cs = (f ()).run cs := by
  rw [guard, if_pos h]
  rfl

theorem run_orElse_of_run (h : x.run cs = some (a, rest)) :
    (x <|> y).run cs = some (a, rest) := by
  change (x.run cs <|> y.run cs) = _
  rw [h]
  rfl

theorem run_orElse_of_none (h : x.run cs = none) : (x <|> y).run cs = y.run cs := by
  change (x.run cs <|> y.run cs) = _
  rw [h]
  rfl

end Run

theorem run_char_cons (c : Char) (rest : List Char) : (char c).run (c :: rest) = some ((), rest) :=
  if_pos rfl

/-- What starts with a digit has no sign. -/
theorem run_char_bind_of_isDigit {c d : Char} (hc : c.isDigit = false) (hd : d.isDigit)
    (f : Unit → Scan α) (rest : List Char) : (char c >>= f).run (d :: rest) = none := by
  have hne : d ≠ c := by
    rintro rfl
    exact Bool.noConfusion (hd.symm.trans hc)
  rw [StateT.run_bind, show (char c).run (d :: rest) = none from if_neg hne]
  rfl

theorem run_digits {ds : List Char} (hds : ∀ c ∈ ds, c.isDigit) {stop : Char}
    (hstop : stop.isDigit = false) (rest : List Char) :
    (digits stop).run (ds ++ stop :: rest) = some (ds, rest) := by
  have hneg : ¬stop.isDigit = true := by simp [hstop]
  have htake : (ds ++ stop :: rest).takeWhile Char.isDigit = ds := by
    rw [List.takeWhile_append_of_pos hds, List.takeWhile_cons_of_neg hneg, List.append_nil]
  have hdrop : (ds ++ stop :: rest).dropWhile Char.isDigit = stop :: rest := by
    rw [List.dropWhile_append_of_pos hds, List.dropWhile_cons_of_neg hneg]
  change (match (ds ++ stop :: rest).dropWhile Char.isDigit with
    | [] => none
    | c :: rest => if c = stop then some (_, rest) else none) = _
  rw [htake, hdrop]
  exact if_pos rfl

end Scan

namespace Timestamp

open Scan

/-- The moment that a text tells, if it is a timestamp of RFC 3339 in universal time. -/
def ofText? (s : String) : Option Timestamp :=
  match moment.run s.toList with
  | some (t, []) => some t
  | _ => none

/-! ### Numbers -/

section Padded

variable {width n : Nat} {stop : Char}

theorem toList_padded : (padded width n).toList =
    List.replicate (width - (Nat.toDigits 10 n).length) '0' ++ Nat.toDigits 10 n := by
  rw [padded, String.toList_ofList]

theorem isDigit_of_mem_padded {c : Char} (h : c ∈ (padded width n).toList) : c.isDigit := by
  rw [toList_padded, List.mem_append] at h
  rcases h with h | h
  · rw [List.eq_of_mem_replicate h]
    decide
  · exact Nat.isDigit_of_mem_toDigits (by omega) le_rfl h

theorem le_length_padded (width n : Nat) : width ≤ (padded width n).toList.length := by
  rw [toList_padded, List.length_append, List.length_replicate]
  omega

/-- A number that fits has exactly the width. -/
theorem length_padded (hwidth : 0 < width) (hn : n < 10 ^ width) :
    (padded width n).toList.length = width := by
  have hfits := (Nat.length_toDigits_le_iff (by omega) hwidth).2 hn
  rw [toList_padded, List.length_append, List.length_replicate]
  omega

/-- The digits tell the number. -/
theorem ofDigitChars_padded : Nat.ofDigitChars 10 (padded width n).toList 0 = n := by
  rw [toList_padded, Nat.ofDigitChars_append, Nat.ofDigitChars_replicate_zero, Nat.mul_zero,
    Nat.ofDigitChars_ten_toDigits]

theorem run_number (hwidth : 0 < width) (hn : n < 10 ^ width) (hstop : stop.isDigit = false)
    (rest : List Char) :
    (number width stop).run ((padded width n).toList ++ stop :: rest) = some (n, rest) := by
  rw [number, run_bind_of_run (run_digits (fun _ => isDigit_of_mem_padded) hstop rest),
    run_guard_bind (length_padded hwidth hn), ofDigitChars_padded]
  rfl

theorem run_longNumber (hstop : stop.isDigit = false) (rest : List Char) :
    (longNumber width stop).run ((padded width n).toList ++ stop :: rest) = some (n, rest) := by
  rw [longNumber, run_bind_of_run (run_digits (fun _ => isDigit_of_mem_padded) hstop rest),
    run_guard_bind (le_length_padded width n), ofDigitChars_padded]
  rfl

end Padded

/-! ### What was written -/

theorem run_year (y : Int) (rest : List Char) :
    year.run ((yearText y).toList ++ '-' :: rest) = some (y, rest) := by
  have hhyphen : ('-').isDigit = false := by decide
  have hplus : ('+').isDigit = false := by decide
  unfold yearText
  split
  · -- Before the year 0.
    have habs : -(y.natAbs : Int) = y := by omega
    rw [String.toList_append, show "-".toList = ['-'] from rfl, List.append_assoc]
    apply run_orElse_of_run
    rw [List.singleton_append, run_bind_of_run (run_char_cons '-' _),
      run_bind_of_run (run_longNumber hhyphen rest), habs]
    rfl
  · split
    · -- After the year 9999.
      have habs : (y.natAbs : Int) = y := by omega
      rw [String.toList_append, show "+".toList = ['+'] from rfl, List.append_assoc,
        List.singleton_append, year, run_orElse_of_none]
      · apply run_orElse_of_run
        rw [run_bind_of_run (run_char_cons '+' _), run_bind_of_run (run_longNumber hhyphen rest),
          habs]
        rfl
      · rfl
    · -- Without a sign.
      have habs : (y.natAbs : Int) = y := by omega
      have hread := run_number (n := y.natAbs) (by omega) (show _ < 10 ^ 4 by omega) hhyphen rest
      obtain ⟨c, cs, hcs⟩ := List.exists_cons_of_length_pos
        (Nat.lt_of_lt_of_le (by omega) (le_length_padded 4 y.natAbs))
      have hc : c.isDigit := isDigit_of_mem_padded (hcs ▸ List.mem_cons_self)
      rw [hcs, List.cons_append] at hread ⊢
      rw [year, run_orElse_of_none (run_char_bind_of_isDigit hhyphen hc _ _),
        run_orElse_of_none (run_char_bind_of_isDigit hplus hc _ _), run_bind_of_run hread, habs]
      rfl

theorem run_date {d : Date} (h : d.IsValid) (rest : List Char) :
    date.run ((dateText d).toList ++ 'T' :: rest) = some (d, rest) := by
  have hmonth := h.month_le
  have hday := h.day_le.trans (Date.monthLength_le d.year d.month)
  have hhyphen : ('-').isDigit = false := by decide
  simp only [dateText, String.toList_append, show "-".toList = ['-'] from rfl, List.append_assoc,
    List.cons_append, List.nil_append]
  rw [date, run_bind_of_run (run_year d.year _),
    run_bind_of_run (run_number (by omega) (by omega) hhyphen _),
    run_bind_of_run (run_number (by omega) (by omega) (by decide) _), run_guard_bind h]
  rfl

theorem run_fraction {milli : Nat} (h : milli < 1000) (rest : List Char) :
    fraction.run ((padded 3 milli).toList ++ 'Z' :: rest) = some (milli * 1000000, rest) := by
  have hlength : (padded 3 milli).toList.length = 3 := length_padded (by omega) h
  rw [fraction, run_bind_of_run (run_digits (fun _ => isDigit_of_mem_padded) (by decide) rest),
    run_guard_bind (List.ne_nil_of_length_pos (by omega)), ofDigitChars_padded, hlength,
    show milli * 1000000000 / 10 ^ 3 = milli * 1000000 by omega]
  rfl

theorem run_seconds {second milli : Nat} (hsecond : second < 60) (hmilli : milli < 1000)
    (rest : List Char) :
    seconds.run ((padded 2 second).toList ++ '.' :: ((padded 3 milli).toList ++ 'Z' :: rest)) =
      some (second * 1000000000 + milli * 1000000, rest) := by
  apply run_orElse_of_run
  rw [run_bind_of_run (run_number (by omega) (by omega) (by decide) _), run_guard_bind hsecond,
    run_bind_of_run (run_fraction hmilli rest)]
  rfl

theorem run_clock {n : Nat} (h : n < 86400000) (rest : List Char) :
    clock.run ((clockText n).toList ++ 'Z' :: rest) = some (n * 1000000, rest) := by
  have hcolon : (':').isDigit = false := by decide
  have hsum : (n / 3600000 * 60 + n / 60000 % 60) * 60000000000 +
      (n / 1000 % 60 * 1000000000 + n % 1000 * 1000000) = n * 1000000 := by omega
  simp only [clockText, String.toList_append, show ":".toList = [':'] from rfl,
    show ".".toList = ['.'] from rfl, List.append_assoc, List.cons_append, List.nil_append]
  rw [clock, run_bind_of_run (run_number (by omega) (by omega) hcolon _),
    run_bind_of_run (run_number (by omega) (by omega) hcolon _), run_guard_bind (by omega),
    run_bind_of_run (run_seconds (by omega) (by omega) _), hsum]
  rfl

/-- **What was written is read back, to the millisecond.** -/
theorem ofText?_text (t : Timestamp) : ofText? t.text = some ⟨t.millis * 1000000⟩ := by
  have hclock : (t.millis % millisPerDay).toNat < 86400000 := by
    unfold millisPerDay
    omega
  have hnanos : t.millis / millisPerDay * 86400000000000 +
      ((t.millis % millisPerDay).toNat * 1000000 : Nat) = t.millis * 1000000 := by
    unfold millisPerDay
    omega
  have hread : moment.run t.text.toList = some (⟨t.millis * 1000000⟩, []) := by
    simp only [text, String.toList_append, show "T".toList = ['T'] from rfl,
      show "Z".toList = ['Z'] from rfl, List.append_assoc, List.cons_append, List.nil_append]
    rw [moment, run_bind_of_run (run_date (Date.isValid_ofDay _) _),
      run_bind_of_run (run_clock hclock []), Date.toDay_ofDay, hnanos]
    rfl
  rw [ofText?, hread]

/-- The point may be missing, and any number of digits may follow it. -/
example : ofText? "1999-12-31T23:59:59Z" = some (ofSeconds 946684799 0) ∧
    ofText? "1999-12-31T23:59:59.5Z" = some (ofSeconds 946684799 500000000) := by decide

/-- A century that 400 does not divide has no leap day. -/
example : ofText? "1900-02-29T00:00:00.000Z" = none := by decide

end Timestamp

end SnapStore
