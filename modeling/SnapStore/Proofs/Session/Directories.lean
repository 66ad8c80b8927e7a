import SnapStore.Proofs.Path.Text
import SnapStore.Proofs.Session.Collections

/-!
# Directories in collections

A directory is expanded to an entry of its own and to those of its tree. No two of them have the
same path (`SnapStore.Entry.AreBelow.nodup`), so all of them count.

Of an entry of a tree it is known, besides its path, where it lies below the root and what is in it.
This is the **mark** of the entry (`SnapStore.Entry.mark`), and where the root lies does not show in
it. Unless all of a path counts, what is left of the entry is a matter of its mark
(`SnapStore.Strategy.pair?_of_isAt`). The entries of a tree come in an order that their marks
settle, so trees with the same marks leave the same pairs (`SnapStore.Entry.AreBelow.map_mark_eq`).
-/

namespace SnapStore

/-- The final name of a canonical path is a name, if there is one. -/
theorem Path.finalName_eq_empty_or_isName {cwd : Except OsError Path} {p : Path} {c : String}
    (hc : p.canonical cwd = .ok c) :
    (ofString c).finalName = "" ∨ (Utf8.encode (ofString c).finalName).IsName := by
  rcases hname : (ofString c).fileName? with _ | n
  · exact Or.inl (by rw [finalName, hname]; rfl)
  · obtain ⟨name, rfl⟩ := exists_encode_of_fileName? hc hname
    rw [finalName_of_fileName? hname]
    exact Or.inr (isName_of_fileName? hname)

/-- It makes a relative path that goes by it. -/
theorem Path.exists_ofPath_finalName {cwd : Except OsError Path} {p : Path} {c : String}
    (hc : p.canonical cwd = .ok c) (isFile : Bool) :
    ∃ r, RelativePath.ofPath isFile (.ofString (ofString c).finalName) = .ok r ∧
      r.name = (ofString c).finalName := by
  rcases finalName_eq_empty_or_isName hc with hempty | hname
  · rw [hempty]
    exact ⟨⟨isFile, []⟩, rfl, rfl⟩
  · exact ⟨⟨isFile, [_]⟩, RelativePath.ofPath_ofString hname isFile, rfl⟩

/-! ### Marks -/

namespace Entry

/-- Where an entry lies below its root, and what is in it. -/
abbrev Mark := Option RelativePath × Content

/-- The names below the root. -/
def Mark.names (m : Mark) : List Bytes := (m.1.map RelativePath.names).getD []

/-- **The mark of an entry.** Where the root lies does not show in it. -/
def mark (e : Entry) : Mark := (e.relative?, e.content)

/-- Entries of what lies below a directory, in the order of their names. -/
structure AreBelow (c : String) (es : List Entry) : Prop where
  /-- They lie below the directory. -/
  isAt : ∀ e ∈ es, ∃ ns a, ns ≠ [] ∧ e.IsAt c ns a
  /-- They are in order. -/
  sorted : (es.map mark).Pairwise fun m m' => compare m.names m'.names = .lt

section IsAt

variable {c : String} {ns : List Bytes} {a : Option FileSnapshot} {e : Entry}

theorem IsAt.ofString_path (h : e.IsAt c ns a) :
    Path.ofString e.path = (Path.ofString c).below ns := by
  cases h with
  | alone hname => cases a <;> rfl
  | below hne hnames hpath =>
    rw [← hpath]
    cases a <;> rfl

theorem IsAt.isName (h : e.IsAt c ns a) : ∀ n ∈ ns, n.IsName := by
  cases h with
  | alone hname => exact List.forall_mem_nil _
  | below hne hnames hpath => exact hnames

theorem IsAt.names_mark (h : e.IsAt c ns a) (hne : ns ≠ []) : e.mark.names = ns := by
  cases h with
  | alone hname => exact absurd rfl hne
  | below hne' hnames hpath => cases a <;> rfl

end IsAt

namespace AreBelow

variable {c c' : String} {es es' : List Entry}

/-- **No two of a directory and the entries below it have the same path.** -/
theorem nodup {cwd : Except OsError Path} {p : Path} (hc : p.canonical cwd = .ok c)
    (h : AreBelow c es) : (c :: es.map path).Nodup := by
  refine List.nodup_cons.2 ⟨fun hmem => ?_, ?_⟩
  · obtain ⟨e, he, hpath⟩ := List.mem_map.1 hmem
    obtain ⟨ns, a, hne, hat⟩ := h.isAt e he
    have hlength := (Path.ofString c).length_lt_length_below hne fun n hn => (hat.isName n hn).1
    rw [← hat.ofString_path, hpath] at hlength
    exact Nat.lt_irrefl _ hlength
  · rw [List.Nodup, List.pairwise_map]
    refine (List.pairwise_map.1 h.sorted).imp_of_mem ?_
    intro e e' he he' hlt hpath
    obtain ⟨ns, a, hne, hat⟩ := h.isAt e he
    obtain ⟨ns', a', hne', hat'⟩ := h.isAt e' he'
    -- The names can be told from the path, so they would be the same.
    have hbelow : (Path.ofString c).below ns = (Path.ofString c).below ns' := by
      rw [← hat.ofString_path, ← hat'.ofString_path, hpath]
    have hnames := Path.below_injective_of_canonical hc hat.isName hat'.isName hbelow
    have hself : compare ns ns = .eq := Std.ReflCmp.compare_self
    rw [hat.names_mark hne, hat'.names_mark hne', ← hnames, hself] at hlt
    cases hlt

/-- No two entries have the same mark, not even the same names. -/
theorem nodup_mark (h : AreBelow c es) : (es.map mark).Nodup := by
  refine h.sorted.imp fun {m m'} hlt hsame => ?_
  have hself : compare m.names m.names = .eq := Std.ReflCmp.compare_self
  rw [← hsame, hself] at hlt
  cases hlt

/-- **Trees with the same marks have them in the same order.** -/
theorem map_mark_eq (h : AreBelow c es) (h' : AreBelow c' es')
    (hmarks : ∀ m, m ∈ es.map mark ↔ m ∈ es'.map mark) : es.map mark = es'.map mark :=
  Bytes.eq_of_mem_iff Mark.names h.sorted h'.sorted hmarks

end AreBelow

end Entry

namespace Strategy

open Entry

/-- What is left of an entry with this mark below a root, if anything is and not all of its path
counts. -/
def left? : Normalization → Mark → Option Pair
  | .absolute, _ => none
  | .relative, m => m.1.map fun r => (r.display, m.2)
  | .nameOnly, m => m.1.map fun r => (r.name, m.2)
  | .ignored, m => if m.2 = .directory then none else some ("", m.2)

variable {n : Normalization} {c : String} {es : List Entry}

/-- **What is left of an entry below a root is a matter of its mark**, unless all of its path
counts. -/
theorem pair?_of_isAt (hn : n ≠ .absolute) {e : Entry} {ns : List Bytes}
    {a : Option FileSnapshot} (h : e.IsAt c ns a) (hne : ns ≠ []) : pair? n e = left? n e.mark := by
  cases h with
  | alone hname => exact absurd rfl hne
  | below hne' hnames hpath =>
    cases n with
    | absolute => exact absurd rfl hn
    | relative => cases a <;> rfl
    | nameOnly => cases a <;> rfl
    | ignored => cases a <;> rfl

/-- What is left of a directory and the entries below it: all of them count. -/
theorem normalized_cons_of_areBelow {cwd : Except OsError Path} {p : Path}
    (hc : p.canonical cwd = .ok c) (h : AreBelow c es) (hn : n ≠ .absolute) {root : Entry}
    (hroot : root.path = c) (how : Comparison) :
    normalized ⟨how, n⟩ (root :: es) =
      (pair? n root).toList ++ (es.map mark).filterMap (left? n) := by
  have hnodup : ((root :: es).map path).Nodup := by
    rw [List.map_cons, hroot]
    exact h.nodup hc
  have hleft : es.filterMap (pair? n) = (es.map mark).filterMap (left? n) := by
    rw [List.filterMap_map]
    refine List.filterMap_congr fun e he => ?_
    obtain ⟨ns, a, hne, hat⟩ := h.isAt e he
    exact pair?_of_isAt hn hat hne
  rw [← hleft, normalized, distinct_of_nodup hnodup]
  change (root :: es).filterMap (pair? n) = _
  rw [List.filterMap_cons]
  cases pair? n root <;> rfl

end Strategy

/-! ### The expansion of a directory -/

namespace World

variable {w : World} {c : String}

section ListsHeld

variable {root : Path} {es : List Entry} (h : w.ListsHeld root c es)

include h

/-- An entry that is listed is that of something held. -/
theorem ListsHeld.exists_holds {e : Entry} (he : e ∈ es) :
    ∃ ns a, w.Holds root ns a ∧ e.IsAt c ns a := by
  obtain ⟨held, -, hheld, hentries⟩ := h
  obtain ⟨hlength, hget⟩ := List.forall₂_iff_get.1 hentries
  obtain ⟨⟨i, hi⟩, rfl⟩ := List.mem_iff_get.1 he
  exact ⟨_, _, (hheld _).1 (List.get_mem held ⟨i, hlength ▸ hi⟩), hget i (hlength ▸ hi) hi⟩

/-- Of everything that is held an entry is listed. -/
theorem ListsHeld.exists_mem {ns : List Bytes} {a : Option FileSnapshot} (ha : w.Holds root ns a) :
    ∃ e ∈ es, e.IsAt c ns a := by
  obtain ⟨held, -, hheld, hentries⟩ := h
  obtain ⟨hlength, hget⟩ := List.forall₂_iff_get.1 hentries
  obtain ⟨⟨i, hi⟩, hx⟩ := List.mem_iff_get.1 ((hheld (ns, a)).2 ha)
  have hat := hget i hi (hlength ▸ hi)
  rw [hx] at hat
  exact ⟨_, List.get_mem es ⟨i, hlength ▸ hi⟩, hat⟩

end ListsHeld

/-- **An answer about a path, unless to look at the path is to panic**, since the time of what it
leads to has no date. -/
def ifDated {α : Type} (w : World) (p : Path) (a : α) : Except Failure α :=
  if w.IsDated p then .ok a else .error .panic

section Dated

variable {α β : Type} {p : Path} {a : α} {b : β}

theorem ifDated_of_isDated (h : w.IsDated p) (a : α) : w.ifDated p a = .ok a := if_pos h

/-- What follows an answer goes on from it, and nothing follows a panic. -/
theorem run_bind_ifDated {x : ExceptT Failure Id α} {f : α → ExceptT Failure Id β}
    (hx : x.run = w.ifDated p a) (hf : (f a).run = Except.ok b) :
    (x >>= f).run = w.ifDated p b := by
  unfold ifDated at hx ⊢
  split_ifs at hx ⊢
  · exact (Host.run_bind_ok hx).trans hf
  · change ExceptT.bindCont (m := Id) f x.run = _
    rw [hx]
    rfl

/-- A path has the entry that it has if its time has a date, or none. -/
theorem rightEntry_eq_ifDated {node : Node} (hnode : w.find true (.ofString c) = .ok node)
    {e : Entry} (h : node.status.modified.Representable → Host.rightEntry w c = .ok e) :
    Host.rightEntry w c = w.ifDated (.ofString c) e := by
  by_cases hdated : node.status.modified.Representable
  · rw [ifDated_of_isDated ((isDated_iff_of_find hnode).2 hdated), h hdated]
  · rw [ifDated, if_neg (mt (isDated_iff_of_find hnode).1 hdated),
      rightEntry_of_undated hnode hdated]

end Dated

variable (hc : (Path.ofString c).canonical w.workingDirectory = .ok c)

include hc

/-- A file is expanded to its entry, which goes by the final name. -/
theorem exists_expandElement_of_file {content : Bytes} {modified : Timestamp}
    (hnode : w.find true (.ofString c) = .ok (.file content modified)) :
    ∃ r : RelativePath, r.name = (Path.ofString c).finalName ∧
      (w.bareHost.expandElement (.path (.ofString c))).run =
        w.ifDated (.ofString c) [.file c r true ⟨.ofMessage content, modified.text⟩] := by
  obtain ⟨r, hr, hname⟩ := Path.exists_ofPath_finalName hc true
  have hself : (w.bareHost.snapshotSelf (.ofString c)).run =
      w.ifDated (.ofString c) (.file c r true ⟨.ofMessage content, modified.text⟩) := by
    rw [bareHost_snapshotSelf_of_canonical w hc]
    exact rightEntry_eq_ifDated hnode (rightEntry_of_file_named hr rfl hnode)
  exact ⟨r, hname, run_bind_ifDated hself rfl⟩

/-- A path that leads to nothing is expanded to one entry, too. -/
theorem expandElement_of_nothing (hnode : w.find true (.ofString c) = .error .notFound) :
    (w.bareHost.expandElement (.path (.ofString c))).run =
      w.ifDated (.ofString c) [.missing c (Path.ofString c).finalName] := by
  have hself : (w.bareHost.snapshotSelf (.ofString c)).run =
      w.ifDated (.ofString c) (.missing c (Path.ofString c).finalName) := by
    rw [bareHost_snapshotSelf_of_canonical w hc, ifDated_of_isDated (isDated_of_refused hnode)]
    exact rightEntry_of_nothing hnode
  exact run_bind_ifDated hself rfl

variable {t : TreeSnapshot} (ht : (w.bareHost.snapshotTree (.all (.ofString c))).run = Except.ok t)

include ht

/-- What a root holds is listed by its tree. -/
theorem listsHeld_of_snapshotTree (hw : w.IsWellNamed) :
    w.ListsHeld (.ofString c) c t.entries := by
  rw [bareHost_snapshotTree_of_canonical w hc] at ht
  rcases treeOf_course hw hc with ⟨e, -, herror⟩ | ⟨entries, -, hok, hlists⟩
  · exact absurd (herror.symm.trans ht) nofun
  · obtain rfl : (⟨some c, entries⟩ : TreeSnapshot) = t := Except.ok.inj (hok.symm.trans ht)
    exact hlists

variable {modified : Timestamp} (hnode : w.find true (.ofString c) = .ok (.directory modified))

include hnode

/-- **A directory is expanded to its entry**, which goes by the final name, **and those of its
tree.** -/
theorem exists_expandElement_of_directory :
    ∃ r : RelativePath, r.name = (Path.ofString c).finalName ∧
      (w.bareHost.expandElement (.path (.ofString c))).run =
        w.ifDated (.ofString c) (.directory c r true :: t.entries) := by
  obtain ⟨r, hr, hname⟩ := Path.exists_ofPath_finalName hc false
  have hself : (w.bareHost.snapshotSelf (.ofString c)).run =
      w.ifDated (.ofString c) (.directory c r true) := by
    rw [bareHost_snapshotSelf_of_canonical w hc]
    exact rightEntry_eq_ifDated hnode (rightEntry_of_directory_named hr rfl hnode)
  exact ⟨r, hname, run_bind_ifDated hself (Host.run_bind_ok ht)⟩

/-- The entries of its tree lie below it. -/
theorem areBelow_of_snapshotTree (hw : w.IsWellNamed) : Entry.AreBelow c t.entries := by
  have hlists := listsHeld_of_snapshotTree hc ht hw
  -- No entry is that of the directory itself, as this would have to be a file.
  have hbelow : ∀ {ns a}, w.Holds (.ofString c) ns a → ns ≠ [] := by
    rintro _ _ (⟨-, hfile⟩ | ⟨-, -, -, ⟨hne, -⟩, -⟩)
    · rw [hnode] at hfile
      cases hfile
    · exact hne
  refine ⟨fun e he => ?_, ?_⟩
  · obtain ⟨ns, a, hholds, hat⟩ := hlists.exists_holds he
    exact ⟨ns, a, hbelow hholds, hat⟩
  · obtain ⟨held, hsorted, hheld, hentries⟩ := hlists
    have hnames : List.Forall₂ (fun x e => x.1 = e.mark.names) held t.entries := by
      refine List.forall₂_iff_get.2 ⟨hentries.length_eq, fun i hi hi' => ?_⟩
      have hholds := (hheld _).1 (List.get_mem held ⟨i, hi⟩)
      exact ((hentries.get hi hi').names_mark (hbelow hholds)).symm
    have hsame : held.map Prod.fst = (t.entries.map Entry.mark).map Entry.Mark.names := by
      rw [List.map_map, ← List.forall₂_eq_eq_eq, List.forall₂_map_left_iff,
        List.forall₂_map_right_iff]
      exact hnames
    have hfirst : (held.map Prod.fst).Pairwise fun ns ms => compare ns ms = .lt :=
      List.pairwise_map.2 hsorted
    rw [hsame] at hfirst
    exact List.pairwise_map.1 hfirst

end World

/-! ### Answers of a session -/

/-- An answer that can be read off is one. -/
theorem eq_ok_of_toOption {α : Type} {x : Except Failure α} {a : α} (h : x.toOption = some a) :
    x = .ok a := by
  cases x <;> cases h
  rfl

namespace Session

variable {w : World} {s : Session} {st : Strategy} {p : String}
  (hp : (Path.ofString p).canonical w.workingDirectory = .ok p)
  (hs : s.IsStill w (HoldsRight w st))

include hp hs

/-- The entry that a session gives of a canonical path. -/
theorem snapshotSelf_of_canonical : (snapshotSelf (.ofString p) s).1 = Host.rightEntry w p :=
  (rel_snapshotSelf (.ofString p) s hs).1.trans (World.bareHost_snapshotSelf_of_canonical w hp)

/-- The tree that it gives. -/
theorem snapshotTree_of_canonical :
    (snapshotTree (.all (.ofString p)) s).1 =
      w.treeOf (some p) (w.course (.all (.ofString p))) :=
  (rel_snapshotTree (Or.inr (World.isCanonical_ofString hp)) s hs).1.trans
    (World.bareHost_snapshotTree_of_canonical w hp)

/-- The tree that a session gives of a canonical path is the one that the bare host gives. -/
theorem bareHost_snapshotTree_of_snapshotTree {t : TreeSnapshot}
    (ht : (snapshotTree (.all (.ofString p)) s).1 = .ok t) :
    (w.bareHost.snapshotTree (.all (.ofString p))).run = Except.ok t :=
  (rel_snapshotTree (Or.inr (World.isCanonical_ofString hp)) s hs).1.symm.trans ht

variable {es : List Entry}
  (hes : (w.bareHost.expandElement (.path (.ofString p))).run = w.ifDated (.ofString p) es)

include hes

omit hp hs in
theorem bareHost_expand_of_expandElement :
    (w.bareHost.expand [.path (.ofString p)]).run = w.ifDated (.ofString p) es :=
  World.run_bind_ifDated hes (congrArg Except.ok (List.append_nil es))

/-- The expansion of a path, when it is known what the bare host expands it to. -/
theorem expand_of_expandElement :
    (expand [.path (.ofString p)] s).1 = w.ifDated (.ofString p) es := by
  have hexpand := bareHost_expand_of_expandElement hes
  have hcanonical : ∀ r ∈ [Member.path (.ofString p)], IsCanonicalMember w r :=
    List.forall_mem_singleton.2 (World.isCanonical_ofString hp)
  exact (rel_expand hcanonical s hs).1.trans hexpand

/-- And its aggregate. -/
theorem snapshotAll_of_expandElement :
    (snapshotAll st (.ofString p) s).1 = w.ifDated (.ofString p) (st.combine es) := by
  have hexpand := bareHost_expand_of_expandElement hes
  have hbare := World.bareHost_snapshotAll w st (.ofString p)
  rw [World.keyOf_eq_ok_iff.2 hp] at hbare
  exact ((rel_snapshotAll (.ofString p) s hs).1.trans hbare).trans
    (World.run_bind_ifDated hexpand rfl)

end Session

end SnapStore
