import SnapStore.Encoding.Value

/-!
# Reading values

Three things are said of the functions that read a `SnapStore.Value`: what they make of a value that
was written, what is true of whatever they give, and what that has to do with the value.

What was written is read field by field; the lemmas about it are tagged for `simp`, which then reads
a whole record. What is true of everything that is given is `SnapStore.Value.Yields`, and it is
followed through a reading step by step. It does not matter which of its forms a value has: an
object and an array are read by different steps, and what these yield is the same. If it is to be
said what a value must have been, these steps are followed with the values that they use up
(`SnapStore.Value.RowReads`).
-/

namespace SnapStore.Value

variable {α β : Type} {read : Value → Decoded α}

/-! ### Reading what was written -/

@[simp] theorem ok_bind (a : α) (f : α → Decoded β) : (Except.ok a >>= f) = f a := rfl

@[simp] theorem ok_map (a : α) (f : α → β) : (f <$> (Except.ok a : Decoded α)) = .ok (f a) := rfl

@[simp] theorem require_some (a : α) : require (some a) = .ok a := rfl

@[simp] theorem toBool_bool (b : Bool) : toBool (bool b) = .ok b := rfl

@[simp] theorem toText_string (s : String) : toText (string s) = .ok s := rfl

@[simp] theorem field_cons_self (name : String) (v : Value) (rest : List (String × Value)) :
    field ((name, v) :: rest) name read = some <$> read v := by
  rw [field, List.lookup_cons_self]
  rfl

@[simp] theorem field_cons_of_ne {name other : String} (h : name ≠ other) (v : Value)
    (rest : List (String × Value)) :
    field ((other, v) :: rest) name read = field rest name read := by
  have hother : (name == other) = false := by simpa using h
  rw [field, List.lookup_cons, hother]
  rfl

/-- Items are read back one by one. -/
theorem toList_map {write : α → Value} {as : List α} (h : ∀ a ∈ as, read (write a) = .ok a) :
    toList read (array (as.map write)) = .ok as := by
  change readAll read (as.map write) = .ok as
  induction as with
  | nil => rfl
  | cons a as ih =>
    rw [List.map_cons, readAll, h a (by simp), ih fun b hb => h b (List.mem_cons_of_mem _ hb)]
    rfl

theorem toNat_number {bound n : Nat} (h : n < bound) : toNat bound (number n) = .ok n := by
  simp [toNat, h]

/-! ### What a reading yields -/

/-- Whatever is given has a property. -/
def Yields (P : α → Prop) (x : Decoded α) : Prop := ∀ a, x = .ok a → P a

section Yields

variable {P : α → Prop} {Q : β → Prop} {x : Decoded α}

theorem yields_true (x : Decoded α) : Yields (fun _ => True) x := fun _ _ => trivial

theorem yields_ok {a : α} (h : P a) : Yields P (.ok a) := by
  rintro _ ⟨⟩
  exact h

theorem yields_error (fault : Fault) : Yields P (.error fault) := nofun

theorem Yields.bind {f : α → Decoded β} (hx : Yields P x) (hf : ∀ a, P a → Yields Q (f a)) :
    Yields Q (x >>= f) := by
  rcases x with fault | a
  · exact yields_error fault
  · exact hf a (hx a rfl)

theorem Yields.map {f : α → β} (hx : Yields P x) (hf : ∀ a, P a → Q (f a)) :
    Yields Q (f <$> x) := by
  rcases x with fault | a
  · exact yields_error fault
  · exact yields_ok (hf a (hx a rfl))

/-! ### Plain values -/

theorem yields_toNat (bound : Nat) (v : Value) : Yields (· < bound) (toNat bound v) := by
  cases v with
  | number n =>
    simp only [toNat]
    split
    · rename_i h
      exact yields_ok (by omega)
    · exact yields_error _
  | _ => exact yields_error _

theorem yields_toList (h : ∀ v, Yields P (read v)) (v : Value) :
    Yields (∀ a ∈ ·, P a) (toList read v) := by
  cases v with
  | array items =>
    change Yields _ (readAll read items)
    induction items with
    | nil => exact yields_ok (List.forall_mem_nil _)
    | cons v vs ih =>
      exact (h v).bind fun a ha => ih.bind fun as has =>
        yields_ok (List.forall_mem_cons.2 ⟨ha, has⟩)
  | _ => exact yields_error _

/-! ### Fields -/

theorem yields_field (h : ∀ v, Yields P (read v)) (fields : List (String × Value)) (name : String) :
    Yields (∀ a ∈ ·, P a) (field fields name read) := by
  rw [field]
  cases fields.lookup name with
  | none => exact yields_ok nofun
  | some v =>
    refine (h v).map fun a ha => ?_
    rintro _ ⟨⟩
    exact ha

theorem yields_require {a? : Option α} (h : ∀ a ∈ a?, P a) : Yields P (require a?) := by
  cases a? with
  | none => exact yields_error _
  | some a => exact yields_ok (h a rfl)

/-! ### Items -/

/-- Whatever is given, item by item, has a property. -/
def RowYields (P : α → Prop) (row : Row α) : Prop := ∀ items, Yields (fun r => P r.1) (row items)

theorem rowYields_pure {a : α} (h : P a) : RowYields P (pure a) := fun _ => yields_ok h

theorem RowYields.bind {row : Row α} {f : α → Row β} (hrow : RowYields P row)
    (hf : ∀ a, P a → RowYields Q (f a)) : RowYields Q (row >>= f) :=
  fun items => (hrow items).bind fun r hr => hf r.1 hr r.2

theorem rowYields_item (h : ∀ v, Yields P (read v)) : RowYields P (item read) := by
  intro items
  cases items with
  | nil => exact yields_error _
  | cons v rest => exact (h v).map fun a ha => ha

theorem yields_readRow {row : Row α} (hrow : RowYields P row) (items : List Value) :
    Yields P (readRow row items) := by
  have hitems := hrow items
  rw [readRow]
  generalize row items = result at hitems ⊢
  rcases result with fault | ⟨a, _ | ⟨v, rest⟩⟩
  · exact yields_error fault
  · exact yields_ok (hitems (a, []) rfl)
  · exact yields_error _

/-! ### Variants -/

theorem yields_carriedFields {readFields : List (String × Value) → Decoded α}
    (h : ∀ fields, Yields P (readFields fields)) (rest : Option Value) :
    Yields P (carriedFields readFields rest) := by
  rcases rest with _ | v
  · exact yields_error _
  · cases v with
    | object fields => exact h fields
    | _ => exact yields_error _

end Yields

/-! ### What a reading is made from -/

/-- Texts in a row. -/
def texts (ss : List String) : Value := .array (ss.map .string)

theorem texts_injective {ss ts : List String} (h : texts ss = texts ts) : ss = ts :=
  (List.map_inj_right fun _ _ => Value.string.inj).1 (Value.array.inj h)

section

variable {P : Value → α → Prop}

theorem yields_toText (v : Value) : Yields (fun s => v = .string s) v.toText := by
  cases v with
  | string s => exact yields_ok rfl
  | _ => exact yields_error _

/-- Texts are read from an array of them. -/
theorem yields_texts (v : Value) : Yields (fun ss => v = texts ss) (v.toList toText) := by
  cases v with
  | array items =>
    change Yields _ (readAll toText items)
    induction items with
    | nil => exact yields_ok rfl
    | cons v vs ih =>
      refine (yields_toText v).bind fun s hs => ih.bind fun ss hss => yields_ok ?_
      subst hs
      obtain rfl : vs = ss.map .string := Value.array.inj hss
      rfl
  | _ => exact yields_error _

/-- A field is read from what stands under its name. -/
theorem yields_field_of_lookup (h : ∀ v, Yields (P v) (read v))
    (fields : List (String × Value)) (name : String) :
    Yields (fun a? => ∀ a ∈ a?, ∃ v, fields.lookup name = some v ∧ P v a)
      (field fields name read) := by
  rw [field]
  rcases hlookup : fields.lookup name with _ | v
  · exact yields_ok nofun
  · refine (h v).map fun a ha => ?_
    rintro _ ⟨⟩
    exact ⟨v, rfl, ha⟩

/-- What is given is read from the values that are used up for it, and they have something to do
with each other. -/
def RowReads (P : List Value → α → Prop) (row : Row α) : Prop :=
  ∀ items, Yields (fun r => ∃ vs, items = vs ++ r.2 ∧ P vs r.1) (row items)

theorem rowReads_pure {P : List Value → α → Prop} {a : α} (h : P [] a) : RowReads P (pure a) :=
  fun _ => yields_ok ⟨[], rfl, h⟩

theorem rowReads_item_bind {Q : List Value → β → Prop}
    (h : ∀ v, Yields (P v) (read v)) {f : α → Row β}
    (hf : ∀ v a, P v a → RowReads (fun vs => Q (v :: vs)) (f a)) :
    RowReads Q (item read >>= f) := by
  intro items
  cases items with
  | nil => exact yields_error _
  | cons v rest =>
    have hitem : Yields (fun r => P v r.1 ∧ r.2 = rest) (item read (v :: rest)) :=
      (h v).map fun a ha => ⟨ha, rfl⟩
    refine hitem.bind fun r hr => ?_
    obtain ⟨a, _⟩ := r
    obtain ⟨ha, rfl⟩ := hr
    refine fun r hr => ?_
    obtain ⟨vs, hvs, hQ⟩ := hf v a ha _ r hr
    exact ⟨v :: vs, congrArg (v :: ·) hvs, hQ⟩

theorem RowReads.yields_readRow {P : List Value → α → Prop} {row : Row α} (h : RowReads P row)
    (items : List Value) : Yields (P items) (readRow row items) := by
  have hitems := h items
  rw [readRow]
  generalize row items = result at hitems ⊢
  rcases result with fault | ⟨a, _ | ⟨v, rest⟩⟩
  · exact yields_error fault
  · obtain ⟨vs, hvs, hP⟩ := hitems (a, []) rfl
    exact yields_ok (by rwa [hvs, List.append_nil])
  · exact yields_error _

end

end SnapStore.Value
