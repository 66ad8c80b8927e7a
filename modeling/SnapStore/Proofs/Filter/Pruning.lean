import SnapStore.Filter
import SnapStore.Proofs.Path.Names

/-!
# Pruning

A walk does not go down into a directory that its filter denies, and the filter is not asked about
anything below. It need not be: all that lies below a denied directory is denied
(`SnapStore.Filter.level_eq_deny_of_goesOn`).

A directory is denied on one of two grounds (`SnapStore.Filter.level_directory_eq_deny_iff`). If an
excluded root opens its path, then that opens the path of everything below as well. The other ground
is that no included root is above the directory or below it. An included root above something
further down opens the same path as the directory does, so that one of the two opens the other
(`SnapStore.Path.startsWith_total`), and it would have been above the directory or below it.

Rules are compared by their components and in no other way. So nothing depends on what their paths
are like, whether they are empty or absolute or have dots in them.
-/

namespace SnapStore

namespace Path

/-! ### Paths that go on from others -/

/-- Whether a path goes on from another one: it is what comes of joining names on, one at least,
however it is spelled. -/
def GoesOnFrom (q p : Path) : Prop :=
  ∃ ns : List Bytes, ns ≠ [] ∧ (∀ n ∈ ns, n.IsName) ∧ q.same (p.below ns) = true

theorem GoesOnFrom.startsWith {p q : Path} (h : q.GoesOnFrom p) : q.startsWith p = true := by
  obtain ⟨ns, -, hns, hsame⟩ := h
  have hcomponents : q.components = p.components ++ ns.map .name :=
    (of_decide_eq_true hsame).trans (components_below p hns)
  rw [Path.startsWith, List.isPrefixOf_iff_prefix, hcomponents]
  exact List.prefix_append _ _

end Path

namespace Filter

variable {f : Filter} {p q : Path}

/-! ### Why a directory is denied -/

/-- Whether an included root is above the path or below it, if there are any. -/
def isOnTheWay (f : Filter) (p : Path) : Bool := f.isIncluded p || f.leadsToRoot p

theorem level_eq_deny_of_isExcluded (h : f.isExcluded p = true) (isDirectory : Bool) :
    f.level p isDirectory = .deny := by
  rw [level, if_pos h]

theorem level_eq_deny_of_not_isOnTheWay (h : ¬ f.isOnTheWay p = true) (isDirectory : Bool) :
    f.level p isDirectory = .deny := by
  rw [isOnTheWay, Bool.or_eq_true, not_or] at h
  obtain ⟨hincluded, hleads⟩ := h
  have hthrough : ¬ (isDirectory && f.leadsToRoot p) = true :=
    fun hboth => hleads (Bool.and_eq_true_iff.1 hboth).2
  rw [level, if_neg hincluded, if_neg hthrough, ite_self]

/-- **The grounds on which a directory is denied.** -/
theorem level_directory_eq_deny_iff :
    f.level p true = .deny ↔ f.isExcluded p = true ∨ ¬ f.isOnTheWay p = true := by
  have hlevel : f.level p true =
      if f.isExcluded p then .deny
      else if f.isIncluded p then (if f.hasFileRules then .traverse else .allow)
      else if f.leadsToRoot p then .traverse else .deny := rfl
  constructor
  · intro h
    by_contra hcon
    obtain ⟨hexcluded, hway⟩ := not_or.1 hcon
    rw [hlevel, if_neg hexcluded] at h
    rw [not_not, isOnTheWay, Bool.or_eq_true] at hway
    rcases hway with hincluded | hleads
    · rw [if_pos hincluded] at h
      split_ifs at h
    · rw [if_pos hleads] at h
      split_ifs at h
  · rintro (hexcluded | hway)
    · exact level_eq_deny_of_isExcluded hexcluded true
    · exact level_eq_deny_of_not_isOnTheWay hway true

/-! ### What lies below -/

/-- What is excluded is excluded with everything below. -/
theorem isExcluded_of_startsWith (hq : q.startsWith p = true) (h : f.isExcluded p = true) :
    f.isExcluded q = true := by
  obtain ⟨root, hroot, hp⟩ := List.any_eq_true.1 h
  exact List.any_eq_true.2 ⟨root, hroot, Path.startsWith_trans hq hp⟩

/-- What is on the way is so with everything above. -/
theorem isOnTheWay_of_startsWith (hq : q.startsWith p = true) (h : f.isOnTheWay q = true) :
    f.isOnTheWay p = true := by
  simp only [isOnTheWay, isIncluded, leadsToRoot, Bool.or_eq_true, List.any_eq_true] at h ⊢
  rcases h with (hempty | ⟨root, hroot, habove⟩) | ⟨root, hroot, hbelow⟩
  · exact Or.inl (Or.inl hempty)
  · -- The root and the directory open the same path.
    rcases Path.startsWith_total hq habove with hp | hp
    · exact Or.inl (Or.inr ⟨root, hroot, hp⟩)
    · exact Or.inr ⟨root, hroot, hp⟩
  · exact Or.inr ⟨root, hroot, Path.startsWith_trans hbelow hq⟩

/-- **Everything below a denied directory is denied**, on the grounds on which the directory is. -/
theorem level_eq_deny_of_startsWith (h : f.level p true = .deny) (hq : q.startsWith p = true)
    (isDirectory : Bool) : f.level q isDirectory = .deny := by
  rcases level_directory_eq_deny_iff.1 h with hexcluded | hway
  · exact level_eq_deny_of_isExcluded (isExcluded_of_startsWith hq hexcluded) isDirectory
  · have hway' : ¬ f.isOnTheWay q = true := fun h => hway (isOnTheWay_of_startsWith hq h)
    exact level_eq_deny_of_not_isOnTheWay hway' isDirectory

/-- **Pruning is sound.** What goes on from a denied directory is denied, whether it is a directory
or not; and so a walk can get to whatever is not denied, since each directory above is listed or
gone through. -/
theorem level_eq_deny_of_goesOn (f : Filter) {p q : Path} (h : q.GoesOnFrom p) :
    (f.level p true = .deny → ∀ isDirectory, f.level q isDirectory = .deny) ∧
      ∀ isDirectory, f.level q isDirectory ≠ .deny →
        f.level p true = .allow ∨ f.level p true = .traverse := by
  have hdeny : f.level p true = .deny → ∀ isDirectory, f.level q isDirectory = .deny :=
    fun hp => level_eq_deny_of_startsWith hp h.startsWith
  refine ⟨hdeny, fun isDirectory hq => ?_⟩
  cases hp : f.level p true with
  | deny => exact absurd (hdeny hp isDirectory) hq
  | traverse => exact Or.inr rfl
  | allow => exact Or.inl rfl

/-- Rules with dots, and one that is absolute: `./src/b` and `/src` include nothing that a walk
comes to. The directory above the root that does count is gone through. -/
theorem level_eq_deny_of_goesOn_of_dots :
    let f := ofRules (["src/a", "./src/b", "/src"].map Path.ofString)
      (["src/a/gen", "..", "src/../a"].map Path.ofString) [] ["rs"]
    let p := Path.ofString "src/b"
    let q := Path.ofString "src//b/./x.rs/"
    let top := Path.ofString "src"
    let file := top.below (["a", "x.rs"].map Utf8.encode)
    (q.GoesOnFrom p ∧ f.level p true = .deny ∧ ∀ isDirectory, f.level q isDirectory = .deny) ∧
      file.GoesOnFrom top ∧ f.level file false = .allow ∧
        (f.level top true = .allow ∨ f.level top true = .traverse) := by
  intro f p q top file
  have hq : q.GoesOnFrom p := ⟨[Utf8.encode "x.rs"], by decide, by decide, by decide⟩
  have hfile : file.GoesOnFrom top :=
    ⟨["a", "x.rs"].map Utf8.encode, by decide, by decide, by decide⟩
  have hp : f.level p true = .deny := by decide
  have hallow : f.level file false = .allow := by decide
  refine ⟨⟨hq, hp, (level_eq_deny_of_goesOn f hq).1 hp⟩, hfile, hallow, ?_⟩
  exact (level_eq_deny_of_goesOn f hfile).2 false (by rw [hallow]; decide)

end Filter

end SnapStore
