/-
Directory trees with symbolic links, over any names, contents and errors, and the resolution of paths in them.
Resolution passes only through entries that are there, so a new entry changes no path that resolved, and no
path that resolved up to its last component.
-/
import Mathlib.Data.List.Basic
import Mathlib.Tactic

namespace FileTree

/-- A component of a path. -/
inductive Component (ν : Type)
  | here
  | up
  | name (name : ν)

/-- A directory entry. Of an unreadable one only the error of looking at it is known. -/
inductive Node (ν α ε : Type)
  | file (content : α)
  | directory
  | link (absolute : Bool) (target : List (Component ν))
  | unreadable (error : ε)

/-- Why a path does not resolve. -/
inductive Failure (ε : Type)
  | missing
  | refusedName
  | notDirectory
  | tooManyLinks
  | unreadable (error : ε)

/-- The entries by location, which is the names on the way from the root. An entry lies in a directory, under a
name the tree admits; other names cannot even be looked up. -/
structure Tree (ν α ε : Type) where
  entries : List ν → Option (Node ν α ε)
  admits : ν → Bool
  root : entries [] = some .directory
  parent : ∀ {dir name}, entries (dir ++ [name]) ≠ none → entries dir = some .directory
  admitted : ∀ {dir name}, entries (dir ++ [name]) ≠ none → admits name = true

namespace Tree

variable {ν α ε : Type} (tree : Tree ν α ε)

def isDirectory (location : List ν) : Bool :=
  match tree.entries location with
  | some .directory => true
  | _ => false

theorem isDirectory_iff {location : List ν} :
    tree.isDirectory location = true ↔ tree.entries location = some .directory := by
  unfold isDirectory
  rcases tree.entries location with _ | (_ | _ | _ | _) <;> simp

/-! ## Resolution -/

/-- The components of a path from a location on; a link is followed by `follow`. -/
def resolveWith (follow : List ν → List (Component ν) → Except (Failure ε) (List ν)) :
    List ν → List (Component ν) → Except (Failure ε) (List ν)
  | location, [] => .ok location
  | location, component :: rest =>
    if tree.isDirectory location then
      match component with
      | .here => resolveWith follow location rest
      | .up => resolveWith follow location.dropLast rest
      | .name name =>
        if tree.admits name then match tree.entries (location ++ [name]) with
          | none => .error .missing
          | some (.unreadable e) => .error (.unreadable e)
          | some (.link absolute target) => follow (if absolute then [] else location) (target ++ rest)
          | some (.file _) => resolveWith follow (location ++ [name]) rest
          | some .directory => resolveWith follow (location ++ [name]) rest
        else .error .refusedName
    else .error .notDirectory

/-- The file or directory a path leads to, over at most so many links. -/
def resolve : (links : Nat) → List ν → List (Component ν) → Except (Failure ε) (List ν)
  | 0 => tree.resolveWith fun _ _ => .error .tooManyLinks
  | links + 1 => tree.resolveWith (resolve links)

/-- Where a component leads from a directory. -/
def child (dir : List ν) : Component ν → List ν
  | .here => dir
  | .up => dir.dropLast
  | .name name => dir ++ [name]

def admitsComponent : Component ν → Bool
  | .name name => tree.admits name
  | _ => true

/-- The location of a path's last component, which is not followed and need not be there. -/
def locate (links : Nat) (location : List ν) (dirs : List (Component ν)) (last : Component ν) :
    Except (Failure ε) (List ν) :=
  match tree.resolve links location dirs with
  | .error e => .error e
  | .ok dir =>
    if tree.isDirectory dir then
      if tree.admitsComponent last then .ok (child dir last) else .error .refusedName
    else .error .notDirectory

/-- Resolution as a relation, one rule for each kind of step. -/
inductive Resolves : Nat → List ν → List (Component ν) → List ν → Prop
  | done {links location} : Resolves links location [] location
  | here {links location rest target} : tree.isDirectory location = true → Resolves links location rest target →
      Resolves links location (.here :: rest) target
  | up {links location rest target} : tree.isDirectory location = true → Resolves links location.dropLast rest target →
      Resolves links location (.up :: rest) target
  | file {links location name content rest target} : tree.isDirectory location = true →
      tree.entries (location ++ [name]) = some (.file content) → Resolves links (location ++ [name]) rest target →
      Resolves links location (.name name :: rest) target
  | directory {links location name rest target} : tree.isDirectory location = true →
      tree.entries (location ++ [name]) = some .directory → Resolves links (location ++ [name]) rest target →
      Resolves links location (.name name :: rest) target
  | link {links location name absolute path rest target} : tree.isDirectory location = true →
      tree.entries (location ++ [name]) = some (.link absolute path) →
      Resolves links (if absolute then [] else location) (path ++ rest) target →
      Resolves (links + 1) location (.name name :: rest) target

/-- A step of the resolution. -/
theorem resolve_cons (links : Nat) (location : List ν) (component : Component ν) (rest : List (Component ν)) :
    tree.resolve links location (component :: rest) =
      if tree.isDirectory location then
        match component with
        | .here => tree.resolve links location rest
        | .up => tree.resolve links location.dropLast rest
        | .name name =>
          if tree.admits name then match tree.entries (location ++ [name]) with
            | none => .error .missing
            | some (.unreadable e) => .error (.unreadable e)
            | some (.link absolute target) => match links with
              | 0 => .error .tooManyLinks
              | links + 1 => tree.resolve links (if absolute then [] else location) (target ++ rest)
            | some (.file _) => tree.resolve links (location ++ [name]) rest
            | some .directory => tree.resolve links (location ++ [name]) rest
          else .error .refusedName
      else .error .notDirectory := by
  cases links <;> cases component <;> rfl

theorem resolves_of_resolve (links : Nat) : ∀ {path : List (Component ν)} {location target : List ν},
    tree.resolve links location path = .ok target → tree.Resolves links location path target := by
  induction links using Nat.strong_induction_on with
  | _ links hlinks =>
    intro path
    induction path with
    | nil =>
      intro location target h
      cases links <;> cases h <;> exact .done
    | cons component rest ih =>
      intro location target h
      rw [resolve_cons] at h
      split at h
      · rename_i hdir
        rcases component with _ | _ | name
        · exact .here hdir (ih h)
        · exact .up hdir (ih h)
        dsimp only at h
        by_cases hname : tree.admits name = true
        swap
        · rw [if_neg hname] at h; cases h
        rw [if_pos hname] at h
        rcases hentry : tree.entries (location ++ [name]) with _ | (content | _ | ⟨absolute, path⟩ | e)
        · rw [hentry] at h; cases h
        · rw [hentry] at h; exact .file hdir hentry (ih h)
        · rw [hentry] at h; exact .directory hdir hentry (ih h)
        · rw [hentry] at h
          rcases links with _ | links
          · cases h
          · exact .link hdir hentry (hlinks links (Nat.lt_succ_self links) h)
        · rw [hentry] at h; cases h
      · cases h

/-- The name of an entry is one the tree admits. -/
theorem admits_of_entry {dir : List ν} {name : ν} {node : Node ν α ε} (h : tree.entries (dir ++ [name]) = some node) :
    tree.admits name = true :=
  tree.admitted (by rw [h]; exact Option.some_ne_none node)

/-- The relation is the function's graph. -/
theorem resolve_eq_ok_iff {links : Nat} {path : List (Component ν)} {location target : List ν} :
    tree.resolve links location path = .ok target ↔ tree.Resolves links location path target := by
  constructor
  · exact tree.resolves_of_resolve links
  · intro h
    induction h with
    | @done links _ => cases links <;> rfl
    | here hdir _ ih => rw [resolve_cons, if_pos hdir]; exact ih
    | up hdir _ ih => rw [resolve_cons, if_pos hdir]; exact ih
    | file hdir hentry _ ih =>
      rw [resolve_cons, if_pos hdir]
      simp only [hentry, if_pos (tree.admits_of_entry hentry)]
      exact ih
    | directory hdir hentry _ ih =>
      rw [resolve_cons, if_pos hdir]
      simp only [hentry, if_pos (tree.admits_of_entry hentry)]
      exact ih
    | link hdir hentry _ ih =>
      rw [resolve_cons, if_pos hdir]
      simp only [hentry, if_pos (tree.admits_of_entry hentry)]
      exact ih

namespace Resolves

variable {tree} {links : Nat} {location target : List ν} {path : List (Component ν)}

/-- More links do no harm. -/
theorem mono (h : tree.Resolves links location path target) {more : Nat} (hle : links ≤ more) :
    tree.Resolves more location path target := by
  induction h generalizing more with
  | done => exact .done
  | here hdir _ ih => exact .here hdir (ih hle)
  | up hdir _ ih => exact .up hdir (ih hle)
  | file hdir hentry _ ih => exact .file hdir hentry (ih hle)
  | directory hdir hentry _ ih => exact .directory hdir hentry (ih hle)
  | link hdir hentry _ ih =>
    obtain ⟨n, rfl⟩ := Nat.exists_eq_succ_of_ne_zero (show more ≠ 0 by omega)
    exact .link hdir hentry (ih (by omega))

/-- A path resolves by its first part and then by the rest from there. -/
theorem split (h : tree.Resolves links location path target) : ∀ {xs ys}, path = xs ++ ys →
    ∃ dir more, tree.Resolves links location xs dir ∧ tree.Resolves more dir ys target := by
  -- on the way to the target; only a link puts its own path in front of the rest
  induction h with
  | done =>
    intro xs ys hpath
    obtain ⟨rfl, rfl⟩ := List.append_eq_nil_iff.1 hpath.symm
    exact ⟨_, 0, .done, .done⟩
  | @here links location rest target hdir hrest ih =>
    intro xs ys hpath
    rcases xs with _ | ⟨x, xs⟩
    · subst hpath
      exact ⟨location, links, .done, .here hdir hrest⟩
    · obtain ⟨rfl, rfl⟩ := List.cons.inj hpath
      obtain ⟨dir, more, hxs, hys⟩ := ih rfl
      exact ⟨dir, more, .here hdir hxs, hys⟩
  | @up links location rest target hdir hrest ih =>
    intro xs ys hpath
    rcases xs with _ | ⟨x, xs⟩
    · subst hpath
      exact ⟨location, links, .done, .up hdir hrest⟩
    · obtain ⟨rfl, rfl⟩ := List.cons.inj hpath
      obtain ⟨dir, more, hxs, hys⟩ := ih rfl
      exact ⟨dir, more, .up hdir hxs, hys⟩
  | @file links location name content rest target hdir hentry hrest ih =>
    intro xs ys hpath
    rcases xs with _ | ⟨x, xs⟩
    · subst hpath
      exact ⟨location, links, .done, .file hdir hentry hrest⟩
    · obtain ⟨rfl, rfl⟩ := List.cons.inj hpath
      obtain ⟨dir, more, hxs, hys⟩ := ih rfl
      exact ⟨dir, more, .file hdir hentry hxs, hys⟩
  | @directory links location name rest target hdir hentry hrest ih =>
    intro xs ys hpath
    rcases xs with _ | ⟨x, xs⟩
    · subst hpath
      exact ⟨location, links, .done, .directory hdir hentry hrest⟩
    · obtain ⟨rfl, rfl⟩ := List.cons.inj hpath
      obtain ⟨dir, more, hxs, hys⟩ := ih rfl
      exact ⟨dir, more, .directory hdir hentry hxs, hys⟩
  | @link links location name absolute path rest target hdir hentry hrest ih =>
    intro xs ys hpath
    rcases xs with _ | ⟨x, xs⟩
    · subst hpath
      exact ⟨location, links + 1, .done, .link hdir hentry hrest⟩
    · obtain ⟨rfl, rfl⟩ := List.cons.inj hpath
      obtain ⟨dir, more, hxs, hys⟩ := ih (List.append_assoc path xs ys).symm
      exact ⟨dir, more, .link hdir hentry hxs, hys⟩

/-- And the other way round. -/
theorem append {dir : List ν} {xs ys : List (Component ν)} {more : Nat} (h : tree.Resolves links location xs dir)
    (h' : tree.Resolves more dir ys target) : tree.Resolves (links + more) location (xs ++ ys) target := by
  induction h with
  | done => exact h'.mono (Nat.le_add_left ..)
  | here hdir _ ih => exact .here hdir (ih h')
  | up hdir _ ih => exact .up hdir (ih h')
  | file hdir hentry _ ih => exact .file hdir hentry (ih h')
  | directory hdir hentry _ ih => exact .directory hdir hentry (ih h')
  | @link links location name absolute path rest target hdir hentry _ ih =>
    have hrest := ih h'
    rw [List.append_assoc] at hrest
    rw [Nat.add_right_comm]
    exact .link hdir hentry hrest

end Resolves

/-! ## What is at the end of a path -/

/-- A file or a directory is there. -/
def IsTarget (location : List ν) : Prop :=
  tree.isDirectory location = true ∨ ∃ content, tree.entries location = some (.file content)

theorem isDirectory_parent (dir : List ν) (name : ν) (h : tree.entries (dir ++ [name]) ≠ none) :
    tree.isDirectory dir = true :=
  tree.isDirectory_iff.2 (tree.parent h)

/-- The directory above a directory is one. -/
theorem isDirectory_dropLast {dir : List ν} (h : tree.isDirectory dir = true) : tree.isDirectory dir.dropLast = true := by
  rcases List.eq_nil_or_concat dir with rfl | ⟨parent, name, rfl⟩
  · exact h
  rw [List.concat_eq_append, List.dropLast_concat]
  apply tree.isDirectory_parent parent name
  rw [← List.concat_eq_append, tree.isDirectory_iff.1 h]
  exact Option.some_ne_none _

/-- A path from a directory leads to a file or a directory. -/
theorem Resolves.isTarget {links : Nat} {location target : List ν} {path : List (Component ν)}
    (h : tree.Resolves links location path target) (hstart : tree.IsTarget location) : tree.IsTarget target := by
  induction h with
  | done => exact hstart
  | here _ _ ih => exact ih hstart
  | up hdir _ ih => exact ih (.inl (tree.isDirectory_dropLast hdir))
  | file _ hentry _ ih => exact ih (.inr ⟨_, hentry⟩)
  | directory _ hentry _ ih => exact ih (.inl (tree.isDirectory_iff.2 hentry))
  | @link _ _ _ absolute _ _ _ hdir _ _ ih =>
    apply ih
    left
    cases absolute
    · exact hdir
    · exact tree.isDirectory_iff.2 tree.root

/-- A file or directory is where its location says, no link on the way. -/
theorem resolves_location {location : List ν} (h : tree.IsTarget location) :
    tree.Resolves 0 [] (location.map .name) location := by
  induction location using List.reverseRecOn with
  | nil => exact .done
  | append_singleton dir name ih =>
    have hdir : tree.isDirectory dir = true := by
      apply tree.isDirectory_parent dir name
      rcases h with h | ⟨content, h⟩
      · rw [tree.isDirectory_iff.1 h]
        exact Option.some_ne_none _
      · rw [h]
        exact Option.some_ne_none _
    have hlast : tree.Resolves 0 dir [.name name] (dir ++ [name]) := by
      rcases h with h | ⟨content, h⟩
      · exact .directory hdir (tree.isDirectory_iff.1 h) .done
      · exact .file hdir h .done
    rw [List.map_append]
    exact (ih (.inl hdir)).append hlast

/-- If a path resolves, then its last component is found in a directory, and so is any other in its place, unless it is
a name the tree refuses. -/
theorem locate_of_resolves {links : Nat} {location target : List ν} {dirs : List (Component ν)} {last : Component ν}
    (h : tree.Resolves links location (dirs ++ [last]) target) :
    ∃ dir more, tree.isDirectory dir = true ∧ tree.Resolves more dir [last] target ∧
      ∀ other, tree.locate links location dirs other =
        if tree.admitsComponent other then .ok (child dir other) else .error .refusedName := by
  obtain ⟨dir, more, hdirs, hlast⟩ := h.split rfl
  have hdir : tree.isDirectory dir = true := by
    cases hlast <;> assumption
  refine ⟨dir, more, hdir, hlast, fun other => ?_⟩
  unfold locate
  rw [tree.resolve_eq_ok_iff.2 hdirs]
  exact if_pos hdir

/-- The last component of a path that resolves is an entry that can be looked at. -/
theorem child_of_resolves {more : Nat} {dir target : List ν} {last : Component ν} (h : tree.Resolves more dir [last] target) :
    ∃ node, tree.entries (child dir last) = some node ∧ ∀ e, node ≠ .unreadable e := by
  cases h with
  | here hdir _ => exact ⟨_, tree.isDirectory_iff.1 hdir, by rintro e ⟨⟩⟩
  | up hdir _ => exact ⟨_, tree.isDirectory_iff.1 (tree.isDirectory_dropLast hdir), by rintro e ⟨⟩⟩
  | file _ hentry _ => exact ⟨_, hentry, by rintro e ⟨⟩⟩
  | directory _ hentry _ => exact ⟨_, hentry, by rintro e ⟨⟩⟩
  | link _ hentry _ => exact ⟨_, hentry, by rintro e ⟨⟩⟩

theorem admitsComponent_of_resolves {more : Nat} {dir target : List ν} {last : Component ν}
    (h : tree.Resolves more dir [last] target) : tree.admitsComponent last = true := by
  cases h with
  | here _ _ => rfl
  | up _ _ => rfl
  | file _ hentry _ => exact tree.admits_of_entry hentry
  | directory _ hentry _ => exact tree.admits_of_entry hentry
  | link _ hentry _ => exact tree.admits_of_entry hentry

/-- A free place that was located is a name in a directory. -/
theorem locate_free {links : Nat} {location target : List ν} {dirs : List (Component ν)} {last : Component ν}
    (h : tree.locate links location dirs last = .ok target) (hfree : tree.entries target = none) :
    ∃ dir name, last = .name name ∧ target = dir ++ [name] ∧ tree.isDirectory dir = true ∧ tree.admits name = true := by
  unfold locate at h
  rcases hresolve : tree.resolve links location dirs with e | dir
  · rw [hresolve] at h; cases h
  rw [hresolve] at h
  dsimp only at h
  split at h
  swap
  · cases h
  rename_i hdir
  split at h
  swap
  · cases h
  rename_i hname
  cases h
  rcases last with _ | _ | name
  · rw [show child dir .here = dir from rfl, tree.isDirectory_iff.1 hdir] at hfree
    cases hfree
  · rw [show child dir .up = dir.dropLast from rfl, tree.isDirectory_iff.1 (tree.isDirectory_dropLast hdir)] at hfree
    cases hfree
  · exact ⟨dir, name, rfl, rfl, hdir, hname⟩

/-! ## A new entry -/

section Create

variable [DecidableEq ν]

/-- The tree with an entry added in a directory. -/
def create (location : List ν) (node : Node ν α ε) (hdir : tree.isDirectory location.dropLast = true)
    (hnames : ∀ name ∈ location, tree.admits name = true) (hfree : tree.entries location = none) : Tree ν α ε where
  entries := Function.update tree.entries location (some node)
  admits := tree.admits
  root := by
    rw [Function.update_of_ne, tree.root]
    rintro rfl
    rw [tree.root] at hfree
    cases hfree
  parent := by
    intro dir name h
    have hparent : tree.isDirectory dir = true := by
      by_cases hnew : dir ++ [name] = location
      · rw [← hnew, List.dropLast_concat] at hdir
        exact hdir
      · rw [Function.update_of_ne hnew] at h
        exact tree.isDirectory_parent dir name h
    have hentry := tree.isDirectory_iff.1 hparent
    rw [Function.update_of_ne, hentry]
    rintro rfl
    rw [hfree] at hentry
    cases hentry
  admitted := by
    intro dir name h
    by_cases hnew : dir ++ [name] = location
    · apply hnames
      rw [← hnew]
      exact List.mem_append_right _ (List.mem_cons_self ..)
    · rw [Function.update_of_ne hnew] at h
      exact tree.admitted h

variable {tree} {new : List ν} {node : Node ν α ε} {hdir : tree.isDirectory new.dropLast = true}
  {hnames : ∀ name ∈ new, tree.admits name = true} {hfree : tree.entries new = none}

theorem create_entries_self : (tree.create new node hdir hnames hfree).entries new = some node :=
  Function.update_self ..

theorem create_entries_of_ne {location : List ν} (h : location ≠ new) :
    (tree.create new node hdir hnames hfree).entries location = tree.entries location :=
  Function.update_of_ne h ..

/-- What was there stays. -/
theorem create_entries_of_some {location : List ν} {old : Node ν α ε} (h : tree.entries location = some old) :
    (tree.create new node hdir hnames hfree).entries location = some old := by
  rw [create_entries_of_ne, h]
  rintro rfl
  rw [hfree] at h
  cases h

theorem create_isDirectory {location : List ν} (h : tree.isDirectory location = true) :
    (tree.create new node hdir hnames hfree).isDirectory location = true :=
  (isDirectory_iff _).2 (create_entries_of_some (tree.isDirectory_iff.1 h))

/-- Paths that resolved still do, to the same place. -/
theorem Resolves.create {links : Nat} {location target : List ν} {path : List (Component ν)}
    (h : tree.Resolves links location path target) : (tree.create new node hdir hnames hfree).Resolves links location path target := by
  induction h with
  | done => exact .done
  | here hdir _ ih => exact .here (create_isDirectory hdir) ih
  | up hdir _ ih => exact .up (create_isDirectory hdir) ih
  | file hdir hentry _ ih => exact .file (create_isDirectory hdir) (create_entries_of_some hentry) ih
  | directory hdir hentry _ ih => exact .directory (create_isDirectory hdir) (create_entries_of_some hentry) ih
  | link hdir hentry _ ih => exact .link (create_isDirectory hdir) (create_entries_of_some hentry) ih

theorem create_admitsComponent (component : Component ν) :
    (tree.create new node hdir hnames hfree).admitsComponent component = tree.admitsComponent component := by
  cases component <;> rfl

/-- So do paths to an entry that need not be there. -/
theorem locate_create {links : Nat} {location target : List ν} {dirs : List (Component ν)} {last : Component ν}
    (h : tree.locate links location dirs last = .ok target) :
    (tree.create new node hdir hnames hfree).locate links location dirs last = .ok target := by
  unfold locate at h ⊢
  rcases hresolve : tree.resolve links location dirs with e | parent
  · rw [hresolve] at h; cases h
  rw [hresolve] at h
  dsimp only at h
  split at h
  · rename_i hparent
    rw [(resolve_eq_ok_iff _).2 (Resolves.create (tree.resolve_eq_ok_iff.1 hresolve))]
    dsimp only
    rw [if_pos (create_isDirectory hparent), create_admitsComponent]
    exact h
  · cases h

end Create

end Tree

end FileTree
