import SnapStore.Path.Basic
import SnapStore.Time.Timestamp

/-!
# Worlds

A `SnapStore.World` is a file system at one moment, together with a current directory. A
**place** is where something stands in it: the list of names from the root, without any
link, `.` or `..` in it. A world is a finite assignment of nodes to places; the root is
always there and always a directory.

Two things are left out because nothing can tell them: there are no hard links, so that a
place is as good as the identity of what stands there, and there are no permissions.

A directory that is removed while it is the current one has no place any more, and still it
can be reached by the paths `.` and `..`: it stays the current directory (`SnapStore.Home`),
empty for good. So what paths lead to is not a place but a `SnapStore.Spot`, either a place or
one of the removed directories in which the current one lies.

`SnapStore.World.node?` looks a place up, `SnapStore.World.children` lists the names below a
directory, and `SnapStore.World.put` and `SnapStore.World.clear` change the assignment.
-/

namespace SnapStore

/-- The names from the root to where something stands. -/
abbrev Place := List Bytes

/-- What kind of thing stands at a place. -/
inductive Kind
  /-- A regular file. -/
  | file
  /-- A directory. -/
  | directory
  /-- A symbolic link. -/
  | link
  /-- Anything else, such as a named pipe. -/
  | special
  deriving DecidableEq

/-- What stands at a place. -/
inductive Node
  /-- A regular file. -/
  | file (content : Bytes) (modified : Timestamp)
  /-- A directory. -/
  | directory (modified : Timestamp)
  /-- A symbolic link. -/
  | link (target : Path)
  /-- Anything else. -/
  | special (modified : Timestamp)
  deriving DecidableEq

/-- What the system says of a node. -/
structure Status where
  /-- What kind of thing it is. -/
  kind : Kind
  /-- When it was last changed. -/
  modified : Timestamp
  /-- How many bytes a regular file holds. -/
  size : Nat
  deriving DecidableEq

namespace Node

/-- The kind of a node. -/
def kind : Node → Kind
  | file _ _ => .file
  | directory _ => .directory
  | link _ => .link
  | special _ => .special

/-- What the system says of a node. -/
def status : Node → Status
  | file content modified => ⟨.file, modified, content.length⟩
  | directory modified => ⟨.directory, modified, 0⟩
  | link target => ⟨.link, .epoch, target.bytes.length⟩
  | special modified => ⟨.special, modified, 0⟩

/-- The node with another modification time. -/
def touch (t : Timestamp) : Node → Node
  | file content _ => file content t
  | directory _ => directory t
  | link target => link target
  | special _ => special t

end Node

/-- The current directory. It may have been removed, and directories above it with it. -/
structure Home where
  /-- The place of the innermost directory on the way to it that has not been removed. -/
  place : Place
  /-- When the directories below that, all of them removed, were last changed; the current one
  comes first. -/
  removed : List Timestamp
  deriving DecidableEq

/-- What a path can lead to. -/
inductive Spot
  /-- What stands at a place. -/
  | place (p : Place)
  /-- A removed directory, so many levels above the current one. -/
  | removed (level : Nat)
  deriving DecidableEq

namespace Home

/-- Whether the current directory has been removed. -/
def isRemoved (h : Home) : Bool := !h.removed.isEmpty

/-- The removed directory so many levels above the current one, or else the standing directory
above all the removed ones. -/
def ancestor (h : Home) (level : Nat) : Spot :=
  if level < h.removed.length then .removed level else .place h.place

/-- Where the current directory is. -/
def spot (h : Home) : Spot := h.ancestor 0

end Home

/-- A file system at one moment. -/
structure World where
  /-- What stands where, the root left out. -/
  nodes : List (Place × Node)
  /-- No place is assigned twice. -/
  distinct : nodes.Pairwise fun a b => a.1 ≠ b.1
  /-- When the root was last changed. -/
  rootModified : Timestamp
  /-- The current directory. -/
  home : Home

namespace World

/-- The world with nothing in it but the root. -/
def empty : World := ⟨[], .nil, .epoch, ⟨[], []⟩⟩

/-- What stands at a place. -/
def node? (w : World) (p : Place) : Option Node :=
  if p = [] then some (.directory w.rootModified) else w.nodes.lookup p

/-- Whether a directory stands at a place. -/
def isDirectory (w : World) (p : Place) : Bool := (w.node? p).any (·.kind = .directory)

/-- What a path leads to at a spot. -/
def nodeAt? (w : World) : Spot → Option Node
  | .place p => w.node? p
  | .removed level => w.home.removed[level]?.map .directory

/-- Whether a directory is at a spot. -/
def isDirectoryAt (w : World) (s : Spot) : Bool := (w.nodeAt? s).any (·.kind = .directory)

/-- The last name of `q`, if `q` lies directly below `p`. -/
def childName? (p q : Place) : Option Bytes :=
  match q.getLast? with
  | none => none
  | some name => if q.dropLast = p then some name else none

/-- The names below a directory and the kinds of what they name. -/
def children (w : World) (p : Place) : List (Bytes × Kind) :=
  w.nodes.filterMap fun e => (childName? p e.1).map (·, e.2.kind)

/-! ### Changes -/

/-- The world without the nodes at the chosen places. -/
def clear (w : World) (gone : Place → Bool) : World where
  nodes := w.nodes.filter fun e => !gone e.1
  distinct := w.distinct.filter _
  rootModified := w.rootModified
  home := w.home

/-- The world with this node at this place. -/
def put (w : World) (p : Place) (n : Node) : World where
  nodes := (w.clear (· = p)).nodes ++ [(p, n)]
  distinct := by
    refine List.pairwise_append.2 ⟨(w.clear (· = p)).distinct, by simp, ?_⟩
    intro a ha b hb
    simp only [clear, List.mem_filter, Bool.not_eq_true', decide_eq_false_iff_not] at ha
    simp only [List.mem_singleton] at hb
    exact hb ▸ ha.2
  rootModified := w.rootModified
  home := w.home

/-! ### What stands where after a change -/

@[simp] theorem node?_nil (w : World) : w.node? [] = some (.directory w.rootModified) := rfl

theorem node?_of_ne_nil (w : World) {p : Place} (hp : p ≠ []) : w.node? p = w.nodes.lookup p := by
  rw [node?, if_neg hp]

/-- Nothing is found among nodes that have been cleared away. -/
theorem lookup_filter_place (nodes : List (Place × Node)) (gone : Place → Bool) (p : Place) :
    (nodes.filter fun e => !gone e.1).lookup p = if gone p then none else nodes.lookup p := by
  induction nodes with
  | nil => simp
  | cons e nodes ih =>
    by_cases he : gone e.1
    · rw [List.filter_cons_of_neg (by simpa using he), ih, List.lookup_cons]
      by_cases hp : p = e.1
      · simp [hp, he]
      · rw [show (p == e.1) = false by simpa using hp]
    · rw [List.filter_cons_of_pos (by simpa using he), List.lookup_cons, List.lookup_cons, ih]
      by_cases hp : p = e.1
      · simp [hp, he]
      · rw [show (p == e.1) = false by simpa using hp]

theorem node?_clear (w : World) (gone : Place → Bool) {p : Place} (hp : p ≠ []) :
    (w.clear gone).node? p = if gone p then none else w.node? p := by
  rw [node?_of_ne_nil _ hp, node?_of_ne_nil _ hp]
  exact lookup_filter_place w.nodes gone p

/-- A node stands where it was put, and nothing else has changed. -/
theorem node?_put (w : World) {p : Place} (n : Node) (hp : p ≠ []) (q : Place) :
    (w.put p n).node? q = if q = p then some n else w.node? q := by
  by_cases hq : q = []
  · rw [hq, if_neg (Ne.symm hp)]
    rfl
  · rw [node?_of_ne_nil _ hq, node?_of_ne_nil _ hq]
    change ((w.nodes.filter fun e => !decide (e.1 = p)) ++ [(p, n)]).lookup q = _
    rw [List.lookup_append, lookup_filter_place w.nodes (fun r => decide (r = p)) q]
    by_cases h : q = p
    · simp [h]
    · rw [if_neg h, if_neg (by simpa using h), List.lookup_cons,
        show (q == p) = false by simpa using h]
      simp

end World

end SnapStore
