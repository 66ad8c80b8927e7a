import SnapStore.Encoding.Snapshot
import SnapStore.Proofs.Encoding.Reading
import SnapStore.Proofs.Tree.Tells

/-!
# Snapshots come back from their values

For every type of `SnapStore.Encoding.Snapshot`: what is written is read back as it was
(`ofValue_toValue`). Two types have members of which this is not true, and for these it takes a
condition: no segment of a relative path may be `.` or `..` (`SnapStore.RelativePath.IsUndotted`),
and a size has to stay below its bound (`SnapStore.Metadata.IsBounded`). Entries and trees have it
from the relative paths in them.

The conditions cost nothing after a reading: they are true of all that is read, whatever its form
was.
-/

namespace SnapStore

open Value (Yields RowYields yields_true yields_ok yields_error yields_field yields_require
  yields_toList yields_toNat rowYields_pure rowYields_item yields_readRow yields_carriedFields)

/-! ### Digests and paths -/

theorem Digest.ofValue_toValue (d : Digest) : ofValue d.toValue = .ok d := by
  obtain ⟨bytes, hlength⟩ := d
  have hread : Value.toList (Value.toNat 256) (.array (bytes.map fun b => .nat b.toNat)) =
      .ok (bytes.map UInt8.toNat) := by
    have hnumber : ∀ n ∈ bytes.map UInt8.toNat, Value.toNat 256 (.nat n) = .ok n := by
      intro n hn
      obtain ⟨b, -, rfl⟩ := List.mem_map.1 hn
      exact Value.toNat_number b.toNat_lt
    have hmap := Value.toList_map hnumber
    rwa [List.map_map] at hmap
  have hbytes : (bytes.map UInt8.toNat).map UInt8.ofNat = bytes := by
    simp [Function.comp_def]
  rw [toValue, ofValue, hread, Value.ok_bind, hbytes, ofBytes?, dif_pos hlength]
  rfl

namespace RelativePath

theorem yields_segmentsOfValue (v : Value) :
    Yields (fun segments => "." ∉ segments ∧ ".." ∉ segments) (segmentsOfValue v) := by
  refine (yields_true (v.toList Value.toText)).bind fun segments _ => ?_
  split
  · exact yields_error _
  · rename_i h
    exact yields_ok (not_or.1 h)

theorem ofValue_toValue {p : RelativePath} (hp : p.IsUndotted) : ofValue p.toValue = .ok p := by
  have hsegments : segmentsOfValue (.array (p.segments.map .string)) = .ok p.segments := by
    have hread : Value.toList Value.toText (.array (p.segments.map .string)) = .ok p.segments :=
      Value.toList_map fun _ _ => rfl
    rw [segmentsOfValue, hread]
    exact if_neg (not_or.2 hp)
  simp [toValue, ofValue, ofFields, hsegments]

theorem isUndotted_of_ofValue (v : Value) : Yields IsUndotted (ofValue v) := by
  cases v with
  | object fields =>
    refine (yields_true _).bind fun isFile _ => ?_
    refine (yields_field yields_segmentsOfValue _ _).bind fun segments hsegments => ?_
    refine (yields_true _).bind fun isFile _ => ?_
    exact (yields_require hsegments).bind fun _ h => yields_ok h
  | array items =>
    refine yields_readRow ?_ items
    refine (rowYields_item (P := fun _ => True) fun v => yields_true _).bind fun isFile _ => ?_
    exact (rowYields_item yields_segmentsOfValue).bind fun _ h => rowYields_pure h
  | _ => exact yields_error _

end RelativePath

/-! ### Metadata -/

theorem FileType.ofValue_toValue (t : FileType) : ofValue t.toValue = .ok t := by
  cases t <;> rfl

namespace Metadata

/-- The size stays below its bound. -/
def IsBounded (m : Metadata) : Prop := m.size < sizeBound

instance (m : Metadata) : Decidable m.IsBounded := inferInstanceAs (Decidable (_ < _))

theorem ofValue_toValue {m : Metadata} (hm : m.IsBounded) : ofValue m.toValue = .ok m := by
  have hsize : Value.toNat sizeBound (.nat m.size) = .ok m.size := Value.toNat_number hm
  simp [toValue, ofValue, ofFields, FileType.ofValue_toValue, hsize]

theorem isBounded_of_ofValue (v : Value) : Yields IsBounded (ofValue v) := by
  cases v with
  | object fields =>
    refine (yields_true _).bind fun fileType _ => (yields_true _).bind fun modified _ => ?_
    refine (yields_field (yields_toNat sizeBound) _ _).bind fun size hsize => ?_
    refine (yields_true _).bind fun fileType _ => (yields_true _).bind fun modified _ => ?_
    exact (yields_require hsize).bind fun _ h => yields_ok h
  | array items =>
    refine yields_readRow ?_ items
    refine (rowYields_item (P := fun _ => True) fun v => yields_true _).bind fun fileType _ => ?_
    refine (rowYields_item (P := fun _ => True) fun v => yields_true _).bind fun modified _ => ?_
    exact (rowYields_item (yields_toNat sizeBound)).bind fun _ h => rowYields_pure h
  | _ => exact yields_error _

end Metadata

/-! ### Files and contents -/

theorem FileSnapshot.ofValue_toValue (s : FileSnapshot) : ofValue s.toValue = .ok s := by
  simp [toValue, ofValue, ofFields, Digest.ofValue_toValue]

theorem Content.ofValue_toValue (c : Content) : ofValue c.toValue = .ok c := by
  cases c with
  | missing => rfl
  | directory => rfl
  | file d =>
    change file <$> Digest.ofValue d.toValue = _
    rw [Digest.ofValue_toValue]
    rfl

/-! ### Entries and trees -/

namespace Entry

theorem ofValue_toValue {e : Entry} (he : e.IsUndotted) : ofValue e.toValue = .ok e := by
  cases e with
  | missing path name => rfl
  | file path relative isRoot snapshot =>
    have hrelative := RelativePath.ofValue_toValue (he relative rfl)
    change fileOfFields _ = _
    simp [fileOfFields, hrelative, FileSnapshot.ofValue_toValue]
  | directory path relative isRoot =>
    have hrelative := RelativePath.ofValue_toValue (he relative rfl)
    have hvariant : ofValue (directory path relative isRoot).toValue = directoryOfFields
        [("path", .string path), ("relative_path", relative.toValue), ("root", .bool isRoot)] := rfl
    simp [hvariant, directoryOfFields, hrelative]

theorem yields_missingOfFields (fields : List (String × Value)) :
    Yields IsUndotted (missingOfFields fields) :=
  (yields_true _).bind fun _ _ => (yields_true _).bind fun _ _ => (yields_true _).bind fun _ _ =>
    (yields_true _).bind fun _ _ => yields_ok nofun

theorem yields_fileOfFields (fields : List (String × Value)) :
    Yields IsUndotted (fileOfFields fields) := by
  refine (yields_true _).bind fun snapshot _ => (yields_true _).bind fun path _ => ?_
  refine (yields_field RelativePath.isUndotted_of_ofValue _ _).bind fun relative hrelative => ?_
  refine (yields_true _).bind fun isRoot _ => (yields_true _).bind fun path _ => ?_
  refine (yields_require hrelative).bind fun r hr => ?_
  refine (yields_true _).bind fun isRoot _ => (yields_true _).bind fun snapshot _ => yields_ok ?_
  rintro _ ⟨⟩
  exact hr

theorem yields_directoryOfFields (fields : List (String × Value)) :
    Yields IsUndotted (directoryOfFields fields) := by
  refine (yields_true _).bind fun path _ => ?_
  refine (yields_field RelativePath.isUndotted_of_ofValue _ _).bind fun relative hrelative => ?_
  refine (yields_true _).bind fun isRoot _ => (yields_true _).bind fun path _ => ?_
  refine (yields_require hrelative).bind fun r hr => ?_
  refine (yields_true _).bind fun isRoot _ => yields_ok ?_
  rintro _ ⟨⟩
  exact hr

theorem isUndotted_of_ofValue (v : Value) : Yields IsUndotted (ofValue v) := by
  refine (yields_true v.variant).bind fun r _ => ?_
  split
  · exact yields_carriedFields yields_missingOfFields _
  · exact yields_carriedFields yields_fileOfFields _
  · exact yields_carriedFields yields_directoryOfFields _
  · exact yields_error _

end Entry

namespace TreeSnapshot

theorem ofValue_toValue {t : TreeSnapshot} (ht : t.IsUndotted) : ofValue t.toValue = .ok t := by
  obtain ⟨base, entries⟩ := t
  have hentries : Value.toList Entry.ofValue (.array (entries.map Entry.toValue)) = .ok entries :=
    Value.toList_map fun e he => Entry.ofValue_toValue (ht e he)
  have hbase : Value.toOption Value.toText (baseValue base) = .ok base := by
    cases base <;> rfl
  simp [toValue, ofValue, ofFields, hentries, hbase]

theorem isUndotted_of_ofValue (v : Value) : Yields IsUndotted (ofValue v) := by
  have hentries := yields_toList Entry.isUndotted_of_ofValue
  cases v with
  | object fields =>
    refine (yields_true _).bind fun base _ => ?_
    refine (yields_field hentries _ _).bind fun entries hentries => ?_
    exact (yields_require hentries).bind fun _ h => yields_ok h
  | array items =>
    refine yields_readRow ?_ items
    refine (rowYields_item (P := fun _ => True) fun v => yields_true _).bind fun base _ => ?_
    exact (rowYields_item hentries).bind fun _ h => rowYields_pure h
  | _ => exact yields_error _

end TreeSnapshot

theorem Aggregate.ofValue_toValue (a : Aggregate) : ofValue a.toValue = .ok a := by
  simp [toValue, ofValue, Digest.ofValue_toValue]

end SnapStore
