import SnapStore.Proofs.Tree.Filtered

/-!
# Courses that leave nothing out

What should be reported of a directory is said here without walking through it. Names **reach** down
from a path (`SnapStore.World.Reaches`) if each is listed in the directory that the ones before it
lead to, and what is to be reported of them depends only on where they lead
(`SnapStore.Report.IsOf`).

A course **covers** some lists of names (`SnapStore.Course.Covers`) if its reports come in strictly
increasing order and each is the right one for names among these; and if, unless it breaks off, of
all these names that are text and lead anywhere there is one. This is put together as courses are:
one after the other (`SnapStore.Course.covers_andThen`, `SnapStore.Course.covers_all`), as long as
the names of the first all come before the names of the second.
-/

namespace SnapStore

/-! ### The order of names -/

namespace Bytes

variable {a b : Bytes} (front : List Bytes)

/-- What two lists of names begin with in common makes no difference to their order. -/
theorem compare_append (xs ys : List Bytes) :
    compare (front ++ xs) (front ++ ys) = compare xs ys := by
  induction front with
  | nil => rfl
  | cons n front ih =>
    have hself : compare n n = .eq := Std.ReflCmp.compare_self
    rw [List.cons_append, List.cons_append, List.compare_cons_cons, hself, ih]
    rfl

/-- A directory comes before what is below it. -/
theorem compare_append_of_ne_nil {ext : List Bytes} (hext : ext ≠ []) :
    compare front (front ++ ext) = .lt := by
  obtain ⟨n, rest, rfl⟩ := List.exists_cons_of_ne_nil hext
  have h := compare_append front [] (n :: rest)
  rw [List.append_nil] at h
  rw [h]
  exact List.compare_nil_cons

/-- What is below one name comes before what is below the next. -/
theorem compare_append_cons (h : compare a b = .lt) (xs ys : List Bytes) :
    compare (front ++ a :: xs) (front ++ b :: ys) = .lt := by
  rw [compare_append, List.compare_cons_cons, h]
  rfl

/-- Lists in strictly increasing order of their names are settled by their members. -/
theorem eq_of_mem_iff {α : Type} (names : α → List Bytes) {xs ys : List α}
    (hxs : xs.Pairwise fun x y => compare (names x) (names y) = .lt)
    (hys : ys.Pairwise fun x y => compare (names x) (names y) = .lt)
    (h : ∀ x, x ∈ xs ↔ x ∈ ys) : xs = ys := by
  have hnodup : ∀ {zs : List α}, zs.Pairwise (fun x y => compare (names x) (names y) = .lt) →
      zs.Nodup := by
    refine fun hzs => hzs.imp fun {x y} hxy heq => ?_
    have hself : compare (names y) (names y) = .eq := Std.ReflCmp.compare_self
    rw [heq, hself] at hxy
    cases hxy
  have hperm : xs.Perm ys := (List.perm_ext_iff_of_nodup (hnodup hxs) (hnodup hys)).2 h
  refine hperm.eq_of_pairwise (fun x y _ _ hxy hyx => ?_) hxs hys
  exact absurd hyx (Std.OrientedCmp.not_lt_of_lt hxy)

end Bytes

/-! ### What there is to be reported -/

/-- Whether names reach down from a path: each is listed where the ones before it lead. -/
def World.Reaches (w : World) : Path → List Bytes → Prop
  | _, [] => True
  | p, n :: ns => (∃ listed kind, w.list p = .ok listed ∧ (n, kind) ∈ listed) ∧
      w.Reaches (p.child n) ns

/-- Names reach down if some of them do, and the others from there. -/
theorem World.reaches_append {w : World} {p : Path} {ns ms : List Bytes} :
    w.Reaches p (ns ++ ms) ↔ w.Reaches p ns ∧ w.Reaches (p.below ns) ms := by
  induction ns generalizing p with
  | nil => exact ⟨fun h => ⟨trivial, h⟩, fun h => h.2⟩
  | cons n ns ih =>
    rw [List.cons_append, Reaches, Reaches, ih, Path.below_cons, and_assoc]

/-- Whether this is what there is to be reported of the names below a root: that they lead to a
file, or to a directory. -/
structure Report.IsOf (w : World) (root : Path) (names : List Bytes) (r : Report) : Prop where
  /-- The names are joined on to the root. -/
  path : r.path = root.below names
  /-- The names are text. -/
  relative : r.relative.names = names
  /-- It is said of files that they are files. -/
  isFile : r.relative.isFile = !r.isDirectory
  /-- This is what is there. -/
  exists_node : ∃ node, w.find true (root.below names) = .ok node ∧
    node.kind = (if r.isDirectory then .directory else .file) ∧
    Metadata.ofStatus node.status = .ok r.seen

/-- What is reported is text. -/
theorem Report.IsOf.isSome_decode? {w : World} {root : Path} {names : List Bytes} {r : Report}
    (h : r.IsOf w root names) : ∀ n ∈ names, (Utf8.decode? n).isSome = true := by
  rw [← h.relative]
  intro n hn
  obtain ⟨segment, -, rfl⟩ := List.mem_map.1 hn
  rw [Utf8.decode?_encode]
  rfl

/-! ### Covering -/

/-- A course reports of certain names below a root, in order, and leaves none out unless it breaks
off. -/
structure Course.Covers (w : World) (root : Path) (P : List Bytes → Prop) (c : Course) : Prop where
  /-- The reports come in order. -/
  sorted : c.reports.Pairwise fun a b => compare a.relative.names b.relative.names = .lt
  /-- They are right. -/
  sound : ∀ r ∈ c.reports, ∃ ns, P ns ∧ r.IsOf w root ns
  /-- None is left out, other than names that are no text and names that lead to nothing. -/
  complete : c.ending = none → ∀ ns, P ns → (∀ n ∈ ns, (Utf8.decode? n).isSome) →
    w.find true (root.below ns) = .error .notFound ∨ ∃ r ∈ c.reports, r.IsOf w root ns

namespace Course

variable {w : World} {root : Path} {P Q : List Bytes → Prop} {c d : Course}

theorem Covers.congr (h : c.Covers w root P) (hPQ : ∀ ns, P ns ↔ Q ns) : c.Covers w root Q where
  sorted := h.sorted
  sound r hr := by
    obtain ⟨ns, hns, hof⟩ := h.sound r hr
    exact ⟨ns, (hPQ ns).1 hns, hof⟩
  complete hending ns hns := h.complete hending ns ((hPQ ns).2 hns)

/-- Nothing has to be said of names that are no text or lead to nothing. -/
theorem covers_nothing (h : ∀ ns, P ns → (∀ n ∈ ns, (Utf8.decode? n).isSome) →
    w.find true (root.below ns) = .error .notFound) : nothing.Covers w root P where
  sorted := .nil
  sound := nofun
  complete _ ns hns htext := Or.inl (h ns hns htext)

/-- What breaks off at once has nothing to say. -/
theorem covers_fail (e : Failure) : (fail e).Covers w root P where
  sorted := .nil
  sound := nofun
  complete := nofun

theorem covers_one {r : Report} {names : List Bytes} (h : r.IsOf w root names) :
    (one r).Covers w root (· = names) where
  sorted := List.pairwise_singleton _ _
  sound _ hr := ⟨names, rfl, List.mem_singleton.1 hr ▸ h⟩
  complete _ _ hns _ := Or.inr ⟨r, List.mem_singleton.2 rfl, hns ▸ h⟩

/-- **A course after another covers what they cover together**, if the names of the first come
before those of the second. -/
theorem covers_andThen (hc : c.Covers w root P) (hd : d.Covers w root Q)
    (hPQ : ∀ ns ms, P ns → Q ms → compare ns ms = .lt) :
    (c.andThen d).Covers w root fun ns => P ns ∨ Q ns := by
  have hleft : ∀ r ∈ c.reports, ∃ ns, (P ns ∨ Q ns) ∧ r.IsOf w root ns := by
    intro r hr
    obtain ⟨ns, hns, hof⟩ := hc.sound r hr
    exact ⟨ns, Or.inl hns, hof⟩
  rcases hending : c.ending with _ | e
  · rw [andThen_of_ending hending]
    refine ⟨List.pairwise_append.2 ⟨hc.sorted, hd.sorted, fun a ha b hb => ?_⟩, fun r hr => ?_,
      fun hending' ns hns htext => ?_⟩
    · -- Reports of the first come before those of the second because the names do.
      obtain ⟨ns, hns, hof⟩ := hc.sound a ha
      obtain ⟨ms, hms, hof'⟩ := hd.sound b hb
      rw [hof.relative, hof'.relative]
      exact hPQ ns ms hns hms
    · rcases List.mem_append.1 hr with hr | hr
      · exact hleft r hr
      · obtain ⟨ns, hns, hof⟩ := hd.sound r hr
        exact ⟨ns, Or.inr hns, hof⟩
    · rcases hns with hns | hns
      · refine (hc.complete hending ns hns htext).imp_right ?_
        rintro ⟨r, hr, hof⟩
        exact ⟨r, List.mem_append_left _ hr, hof⟩
      · refine (hd.complete hending' ns hns htext).imp_right ?_
        rintro ⟨r, hr, hof⟩
        exact ⟨r, List.mem_append_right _ hr, hof⟩
  · rw [andThen, hending]
    exact ⟨hc.sorted, hleft, fun hnone => by rw [hending] at hnone; cases hnone⟩

/-- So do any number of courses. -/
theorem covers_all {α : Type} {xs : List α} {f : α → Course} {P : α → List Bytes → Prop}
    (h : ∀ x ∈ xs, (f x).Covers w root (P x))
    (hsorted : xs.Pairwise fun x y => ∀ ns ms, P x ns → P y ms → compare ns ms = .lt) :
    (all (xs.map f)).Covers w root fun ns => ∃ x ∈ xs, P x ns := by
  induction xs with
  | nil => exact covers_nothing fun ns hns => by simp at hns
  | cons x xs ih =>
    obtain ⟨hx, hxs⟩ := List.pairwise_cons.1 hsorted
    have hrest := ih (fun y hy => h y (List.mem_cons_of_mem _ hy)) hxs
    refine (covers_andThen (h x (by simp)) hrest ?_).congr fun ns => ?_
    · rintro ns ms hns ⟨y, hy, hms⟩
      exact hx y hy ns ms hns hms
    · simp only [List.mem_cons, exists_eq_or_imp]

end Course

end SnapStore
