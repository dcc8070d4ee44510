/-
A file system with links: what it answers as a `FsView`, paths resolved component by component, within the limits
that names and paths have. The entries beside a path that resolves are found where the path's own last component
is, and creating a file changes nothing else.
-/
import Veilite.Lib.FileTree
import Veilite.Turso.Opening

namespace Veilite.Turso

open Buffer Veilite.Core FileTree Traverse

/-! ## Paths -/

def slash : UInt8 := 0x2f

def dot : UInt8 := 0x2e

/-- The pieces of a path between its slashes. -/
def segments : Bytes → List Bytes
  | [] => [[]]
  | byte :: rest =>
    if byte = slash then [] :: segments rest
    else match segments rest with
      | [] => [[byte]]
      | segment :: more => (byte :: segment) :: more

/-- A name an entry can have. -/
def IsName (name : Bytes) : Prop := name ≠ [] ∧ name ≠ [dot] ∧ name ≠ [dot, dot] ∧ slash ∉ name

instance (name : Bytes) : Decidable (IsName name) := inferInstanceAs (Decidable (_ ∧ _))

/-- Three bytes are more than the two names that stand for directories. -/
theorem isName_of_length {name : Bytes} (hlen : 3 ≤ name.length) (h : slash ∉ name) : IsName name := by
  refine ⟨?_, ?_, ?_, h⟩
  · rintro rfl
    simp at hlen
  · rintro rfl
    simp at hlen
  · rintro rfl
    simp at hlen

/-- An empty piece, between two slashes or after the last, says no more than a dot. -/
def component (segment : Bytes) : Component Bytes :=
  if segment = [] ∨ segment = [dot] then .here else if segment = [dot, dot] then .up else .name segment

theorem component_name {name : Bytes} (h : IsName name) : component name = .name name := by
  unfold component
  rw [if_neg (not_or.2 ⟨h.1, h.2.1⟩), if_neg h.2.2.1]

theorem segments_of_notMem {name : Bytes} (h : slash ∉ name) : segments name = [name] := by
  induction name with
  | nil => rfl
  | cons byte rest ih =>
    rw [List.mem_cons, not_or] at h
    rw [segments, if_neg (Ne.symm h.1), ih h.2]

theorem slash_notMem_of_mem_segments {path segment : Bytes} (h : segment ∈ segments path) : slash ∉ segment := by
  induction path generalizing segment with
  | nil =>
    obtain rfl := List.mem_singleton.1 h
    exact List.not_mem_nil
  | cons byte rest ih =>
    rw [segments] at h
    split at h
    · rcases List.mem_cons.1 h with rfl | h
      · exact List.not_mem_nil
      · exact ih h
    · rename_i hbyte
      rcases hrest : segments rest with _ | ⟨first, more⟩
      · rw [hrest] at h
        obtain rfl := List.mem_singleton.1 h
        rw [List.mem_singleton]
        exact Ne.symm hbyte
      · rw [hrest] at h ih
        rcases List.mem_cons.1 h with rfl | h
        · rw [List.mem_cons, not_or]
          exact ⟨Ne.symm hbyte, ih (List.mem_cons_self ..)⟩
        · exact ih (List.mem_cons_of_mem _ h)

/-- A piece that names an entry is its name. -/
theorem isName_of_component {segment name : Bytes} (h : component segment = .name name) (hslash : slash ∉ segment) :
    IsName name := by
  unfold component at h
  split at h
  · cases h
  · rename_i hhere
    split at h
    · cases h
    · rename_i hup
      cases h
      rw [not_or] at hhere
      exact ⟨hhere.1, hhere.2, hup, hslash⟩

/-- Up to the first slash. -/
theorem segments_slash {name : Bytes} (h : slash ∉ name) (rest : Bytes) :
    segments (name ++ slash :: rest) = name :: segments rest := by
  induction name with
  | nil => rw [List.nil_append, segments, if_pos rfl]
  | cons byte name ih =>
    rw [List.mem_cons, not_or] at h
    rw [List.cons_append, segments, if_neg (Ne.symm h.1), ih h.2]

/-- A suffix without a slash goes to the last piece. -/
theorem segments_append {suffix : Bytes} (h : slash ∉ suffix) (path : Bytes) :
    ∃ dirs last, slash ∉ last ∧ segments path = dirs ++ [last] ∧ segments (path ++ suffix) = dirs ++ [last ++ suffix] := by
  induction path with
  | nil => exact ⟨[], [], by simp, rfl, by rw [List.nil_append, segments_of_notMem h]; rfl⟩
  | cons byte rest ih =>
    obtain ⟨dirs, last, hlast, hpath, happend⟩ := ih
    rw [List.cons_append, segments, segments, hpath, happend]
    by_cases hbyte : byte = slash
    · rw [if_pos hbyte, if_pos hbyte]
      exact ⟨[] :: dirs, last, hlast, rfl, rfl⟩
    · rw [if_neg hbyte, if_neg hbyte]
      rcases dirs with _ | ⟨dir, dirs⟩
      · refine ⟨[], byte :: last, ?_, rfl, rfl⟩
        rw [List.mem_cons, not_or]
        exact ⟨Ne.symm hbyte, hlast⟩
      · exact ⟨(byte :: dir) :: dirs, last, hlast, rfl, rfl⟩

/-- The absolute path of a location. -/
def pathOf (location : List Bytes) : Path :=
  ⟨if location = [] then [slash] else location.flatMap fun name => slash :: name⟩

theorem segments_pathOf {location : List Bytes} (hne : location ≠ []) (h : ∀ name ∈ location, IsName name) :
    segments (pathOf location).bytes = [] :: location := by
  unfold pathOf
  rw [if_neg hne]
  induction location with
  | nil => exact absurd rfl hne
  | cons name rest ih =>
    have hname := h name (List.mem_cons_self ..)
    rw [List.flatMap_cons, List.cons_append, segments, if_pos rfl]
    rcases rest with _ | ⟨next, rest⟩
    · rw [List.flatMap_nil, List.append_nil, segments_of_notMem hname.2.2.2]
    · have htail := ih (List.cons_ne_nil next rest) fun name hmem => h name (List.mem_cons_of_mem _ hmem)
      rw [List.flatMap_cons, List.cons_append] at htail ⊢
      rw [segments, if_pos rfl] at htail
      rw [segments_slash hname.2.2.2, (List.cons.inj htail).2]

theorem head?_pathOf (location : List Bytes) : (pathOf location).bytes.head? = some slash := by
  unfold pathOf
  cases location <;> rfl

theorem pathOf_bytes_ne_nil (location : List Bytes) : (pathOf location).bytes ≠ [] := by
  intro hnil
  have hhead := head?_pathOf location
  rw [hnil] at hhead
  cases hhead

/-- The components of an absolute path of names. -/
theorem map_component_names {location : List Bytes} (h : ∀ name ∈ location, IsName name) :
    ([] :: location).map component = .here :: location.map .name := by
  rw [List.map_cons]
  exact congrArg (List.cons _) (List.map_congr_left fun name hmem => component_name (h name hmem))

/-- The companion of an entry's own path is the path of an entry beside it. -/
theorem companion_pathOf (dir : List Bytes) (name suffix : Bytes) :
    companion (pathOf (dir ++ [name])) suffix = pathOf (dir ++ [name ++ suffix]) := by
  have hne : ∀ name : Bytes, dir ++ [name] ≠ [] := fun name => List.append_ne_nil_of_right_ne_nil dir (List.cons_ne_nil name [])
  unfold companion pathOf
  rw [if_neg (hne name), if_neg (hne (name ++ suffix))]
  simp

/-! ## The file system -/

/-- Entries by location, in which relative paths start in a directory. An entry that cannot be looked at does
not pass for a missing one. -/
structure FileSystem where
  tree : Tree Bytes Bytes IoError
  workingDirectory : List Bytes
  inode : List Bytes → FileId
  nameMax : Nat
  pathMax : Nat
  working : tree.isDirectory workingDirectory = true
  limited : ∀ name, tree.admits name = decide (name.length ≤ nameMax)
  named : ∀ {location}, tree.entries location ≠ none → ∀ name ∈ location, IsName name
  unreadable : ∀ {location e}, tree.entries location = some (.unreadable e) → e.kind ≠ .notFound

/-- A name or a whole path over its limit: not an answer that nothing is there. -/
def tooLong : IoError := .new (.other 36) "File name too long (os error 36)"

def failureError : Failure IoError → IoError
  | .missing => IoError.missing
  | .refusedName => tooLong
  | .notDirectory => .new (.other 20) "Not a directory (os error 20)"
  | .tooManyLinks => .new (.other 40) "Too many levels of symbolic links (os error 40)"
  | .unreadable e => e

namespace FileSystem

variable (state : FileSystem)

/-- Where a path starts. -/
def start (path : Path) : List Bytes := if path.bytes.head? = some slash then [] else state.workingDirectory

/-- The file or directory a path leads to, its links followed, 40 at most. -/
def resolve (path : Path) : Except IoError (List Bytes) := do
  if path.bytes = [] then throw IoError.missing
  if state.pathMax < path.bytes.length then throw tooLong
  (state.tree.resolve 40 (state.start path) ((segments path.bytes).map component)).mapError failureError

/-- The location a path names, a link at its end not followed. -/
def locate (path : Path) : Except IoError (List Bytes) := do
  if path.bytes = [] then throw IoError.missing
  if state.pathMax < path.bytes.length then throw tooLong
  (state.tree.locate 40 (state.start path) ((segments path.bytes).dropLast.map component)
    (component ((segments path.bytes).getLastD []))).mapError failureError

/-- The file or directory a path leads to, when its own path is not too long. -/
def canonical (path : Path) : Except IoError (List Bytes) := do
  let location ← state.resolve path
  if state.pathMax < (pathOf location).bytes.length then throw tooLong
  return location

/-- What an entry is; only of a file the length matters. -/
def inspect (location : List Bytes) : Except IoError Metadata :=
  match state.tree.entries location with
  | none => .error IoError.missing
  | some (.unreadable e) => .error e
  | some (.file content) => .ok ⟨true, content.length⟩
  | some (.link _ _) => .ok ⟨false, 0⟩
  | some .directory => .ok ⟨false, 0⟩

/-- An opened directory: its reads fail. -/
def directorySource : ReadAt Unit IoError where
  readExactAt _ output _ := (⟨.error (.new (.other 21) "Is a directory (os error 21)"), output⟩, ())
  len _ := (.ok 4096, ())
  length_readExactAt _ _ _ := rfl

/-- What the file system answers. -/
def view : FsView where
  symlinkMetadata path := state.locate path >>= state.inspect
  metadata path := state.resolve path >>= state.inspect
  canonicalize path := (state.canonical path).map pathOf
  openFile path := (state.resolve path).map fun location => match state.tree.entries location with
    | some (.file content) => FileSource content
    | _ => directorySource
  fileId path := match state.resolve path with
    | .ok location => state.inode location
    | .error _ => 0

/-! ## Paths that resolve -/

variable {state}

theorem isTarget_start (path : Path) : state.tree.IsTarget (state.start path) := by
  left
  unfold start
  split
  · exact state.tree.isDirectory_iff.2 state.tree.root
  · exact state.working

theorem resolves_of_resolve {path : Path} {location : List Bytes} (h : state.resolve path = .ok location) :
    path.bytes ≠ [] ∧ path.bytes.length ≤ state.pathMax ∧
      state.tree.Resolves 40 (state.start path) ((segments path.bytes).map component) location := by
  unfold resolve at h
  obtain ⟨hne, h⟩ := guard_eq_ok_iff.1 h
  obtain ⟨hlen, h⟩ := guard_eq_ok_iff.1 h
  exact ⟨hne, Nat.le_of_not_lt hlen, state.tree.resolve_eq_ok_iff.1 (mapError_eq_ok_iff.1 h)⟩

theorem resolve_of_resolves {path : Path} {location : List Bytes} (hne : path.bytes ≠ [])
    (hlen : path.bytes.length ≤ state.pathMax)
    (h : state.tree.Resolves 40 (state.start path) ((segments path.bytes).map component) location) :
    state.resolve path = .ok location := by
  unfold resolve
  refine guard_eq_ok_iff.2 ⟨hne, guard_eq_ok_iff.2 ⟨Nat.not_lt.2 hlen, ?_⟩⟩
  exact mapError_eq_ok_iff.2 (state.tree.resolve_eq_ok_iff.2 h)

theorem canonical_eq_ok_iff {path : Path} {location : List Bytes} :
    state.canonical path = .ok location ↔
      state.resolve path = .ok location ∧ (pathOf location).bytes.length ≤ state.pathMax := by
  unfold canonical
  rw [bind_eq_ok_iff]
  constructor
  · rintro ⟨target, hresolve, h⟩
    obtain ⟨hlen, h⟩ := guard_eq_ok_iff.1 h
    cases h
    exact ⟨hresolve, Nat.le_of_not_lt hlen⟩
  · rintro ⟨hresolve, hlen⟩
    exact ⟨location, hresolve, guard_eq_ok_iff.2 ⟨Nat.not_lt.2 hlen, rfl⟩⟩

theorem resolve_of_canonical {path : Path} {location : List Bytes} (h : state.canonical path = .ok location) :
    state.resolve path = .ok location :=
  (canonical_eq_ok_iff.1 h).1

/-- A file or a directory is there. -/
theorem isTarget_of_resolve {path : Path} {location : List Bytes} (h : state.resolve path = .ok location) :
    state.tree.IsTarget location :=
  (resolves_of_resolve h).2.2.isTarget _ (isTarget_start path)

theorem start_pathOf (location : List Bytes) : state.start (pathOf location) = [] :=
  if_pos (head?_pathOf location)

/-- A file or directory is found at its own path. -/
theorem resolve_pathOf {location : List Bytes} (h : state.tree.IsTarget location)
    (hlen : (pathOf location).bytes.length ≤ state.pathMax) : state.resolve (pathOf location) = .ok location := by
  have hroot : state.tree.isDirectory [] = true := state.tree.isDirectory_iff.2 state.tree.root
  by_cases hne : location = []
  · subst hne
    exact resolve_of_resolves (List.cons_ne_nil slash []) hlen (.here hroot (.here hroot .done))
  have hentry : state.tree.entries location ≠ none := by
    rcases h with h | ⟨content, h⟩
    · rw [state.tree.isDirectory_iff.1 h]
      exact Option.some_ne_none _
    · rw [h]
      exact Option.some_ne_none _
  have hnames := state.named hentry
  refine resolve_of_resolves (pathOf_bytes_ne_nil location) hlen ?_
  rw [segments_pathOf hne hnames, map_component_names hnames, start_pathOf]
  exact .here hroot ((state.tree.resolves_location h).mono (Nat.zero_le 40))

/-- A canonical path resolves to where it says. -/
theorem resolve_pathOf_of_canonical {path : Path} {location : List Bytes} (h : state.canonical path = .ok location) :
    state.resolve (pathOf location) = .ok location :=
  resolve_pathOf (isTarget_of_resolve (resolve_of_canonical h)) (canonical_eq_ok_iff.1 h).2

/-- The directory and the last piece a path that resolves goes through. -/
theorem exists_last {path : Path} {location : List Bytes} (h : state.resolve path = .ok location) :
    ∃ dirs last, slash ∉ last ∧ segments path.bytes = dirs ++ [last] ∧
      state.tree.Resolves 40 (state.start path) (dirs.map component ++ [component last]) location := by
  obtain ⟨dirs, last, hlast, hpath, -⟩ := segments_append (List.not_mem_nil : slash ∉ []) path.bytes
  have hresolves := (resolves_of_resolve h).2.2
  rw [hpath, List.map_append] at hresolves
  exact ⟨dirs, last, hlast, hpath, hresolves⟩

/-- Beside a path that resolves, every companion has its place in one directory, unless its name or path gets too
long. -/
theorem locate_companion {path : Path} {location : List Bytes} (h : state.resolve path = .ok location) :
    ∃ dir last, state.tree.isDirectory dir = true ∧ ∀ suffix, slash ∉ suffix → 3 ≤ suffix.length →
      state.locate (companion path suffix) =
        if (companion path suffix).bytes.length ≤ state.pathMax ∧ (last ++ suffix).length ≤ state.nameMax then
          .ok (dir ++ [last ++ suffix])
        else .error tooLong := by
  obtain ⟨dirs, last, hlast, hpath, hresolves⟩ := exists_last h
  obtain ⟨dir, -, hdir, -, hlocate⟩ := state.tree.locate_of_resolves hresolves
  refine ⟨dir, last, hdir, fun suffix hsuffix hlen => ?_⟩
  have hname : IsName (last ++ suffix) := by
    apply isName_of_length
    · rw [List.length_append]
      omega
    · rw [List.mem_append]
      exact not_or.2 ⟨hlast, hsuffix⟩
  -- the suffix has no slash, so it lengthens the last name
  have hsegments : segments (companion path suffix).bytes = dirs ++ [last ++ suffix] := by
    obtain ⟨dirs', last', -, hpath', happend⟩ := segments_append hsuffix path.bytes
    obtain ⟨rfl, hlasts⟩ := List.append_inj' (hpath.symm.trans hpath') rfl
    cases hlasts
    exact happend
  have hne := (resolves_of_resolve h).1
  obtain ⟨byte, rest, hbytes⟩ := List.exists_cons_of_ne_nil hne
  -- and the path starts where it did
  have hstart : state.start (companion path suffix) = state.start path := by
    unfold start companion
    rw [hbytes]
    rfl
  have hadmits : state.tree.admitsComponent (.name (last ++ suffix)) = decide ((last ++ suffix).length ≤ state.nameMax) :=
    state.limited _
  unfold locate
  rw [if_neg (by rw [companion, hbytes]; exact List.cons_ne_nil _ _), hsegments, List.dropLast_concat,
    List.getLastD_concat, component_name hname, hstart, hlocate, hadmits]
  by_cases hfits : (companion path suffix).bytes.length ≤ state.pathMax
  · rw [if_neg (Nat.not_lt.2 hfits)]
    by_cases hshort : (last ++ suffix).length ≤ state.nameMax
    · rw [if_pos (decide_eq_true hshort), if_pos ⟨hfits, hshort⟩]
      rfl
    · rw [decide_eq_false hshort, if_neg (not_and_of_not_right _ hshort)]
      rfl
  · rw [if_pos (Nat.lt_of_not_le hfits), if_neg (not_and_of_not_left _ hfits)]
    rfl

/-- Where the own path of an entry of a directory says, there or not. -/
theorem locate_pathOf {dir : List Bytes} {name : Bytes} (hdir : state.tree.isDirectory dir = true) (hname : IsName name)
    (hpath : (pathOf (dir ++ [name])).bytes.length ≤ state.pathMax) :
    state.locate (pathOf (dir ++ [name])) = if name.length ≤ state.nameMax then .ok (dir ++ [name]) else .error tooLong := by
  have hroot : state.tree.isDirectory [] = true := state.tree.isDirectory_iff.2 state.tree.root
  have hnames : ∀ other ∈ dir ++ [name], IsName other := by
    intro other hmem
    rcases List.mem_append.1 hmem with hmem | hmem
    · refine state.named ?_ other hmem
      rw [state.tree.isDirectory_iff.1 hdir]
      exact Option.some_ne_none _
    · obtain rfl := List.mem_singleton.1 hmem
      exact hname
  have hne : dir ++ [name] ≠ [] := List.append_ne_nil_of_right_ne_nil dir (List.cons_ne_nil name [])
  have hsegments : segments (pathOf (dir ++ [name])).bytes = ([] :: dir) ++ [name] := segments_pathOf hne hnames
  have hdirs : ([] :: dir).map component = .here :: dir.map .name :=
    map_component_names fun other hmem => hnames other (List.mem_append_left _ hmem)
  have hresolves : state.tree.Resolves 40 [] (.here :: dir.map .name) dir :=
    .here hroot ((state.tree.resolves_location (.inl hdir)).mono (Nat.zero_le 40))
  have hadmits : state.tree.admitsComponent (.name name) = decide (name.length ≤ state.nameMax) := state.limited name
  unfold locate
  rw [if_neg (pathOf_bytes_ne_nil _), if_neg (Nat.not_lt.2 hpath), hsegments, List.dropLast_concat, List.getLastD_concat,
    component_name hname, hdirs, start_pathOf]
  unfold Tree.locate
  rw [state.tree.resolve_eq_ok_iff.2 hresolves]
  dsimp only
  rw [if_pos hdir, hadmits]
  by_cases hshort : name.length ≤ state.nameMax
  · rw [decide_eq_true hshort, if_pos hshort]
    rfl
  · rw [decide_eq_false hshort, if_neg hshort]
    rfl

/-- An entry that can be looked at has metadata. -/
theorem inspect_ok {location : List Bytes}
    (h : ∃ node, state.tree.entries location = some node ∧ ∀ e, node ≠ .unreadable e) :
    ∃ metadata, state.inspect location = .ok metadata := by
  obtain ⟨node, hentry, hnode⟩ := h
  unfold inspect
  rw [hentry]
  rcases node with content | _ | ⟨absolute, target⟩ | e
  · exact ⟨_, rfl⟩
  · exact ⟨_, rfl⟩
  · exact ⟨_, rfl⟩
  · exact absurd rfl (hnode e)

/-- What a path leads to is there without following the last link. -/
theorem symlinkMetadata_of_resolve {path : Path} {location : List Bytes} (h : state.resolve path = .ok location) :
    ∃ own, state.view.symlinkMetadata path = .ok own := by
  obtain ⟨dirs, last, -, hpath, hresolves⟩ := exists_last h
  obtain ⟨dir, more, -, hlast, hlocate⟩ := state.tree.locate_of_resolves hresolves
  obtain ⟨own, hown⟩ := inspect_ok (state.tree.child_of_resolves hlast)
  refine ⟨own, ?_⟩
  have hlocation : state.locate path = .ok (FileTree.Tree.child dir (component last)) := by
    obtain ⟨hne, hlen, -⟩ := resolves_of_resolve h
    unfold locate
    rw [if_neg hne, if_neg (Nat.not_lt.2 hlen), hpath, List.dropLast_concat, List.getLastD_concat, hlocate,
      if_pos (Tree.admitsComponent_of_resolves _ hlast)]
    rfl
  show state.locate path >>= state.inspect = _
  rw [hlocation]
  exact hown

/-! ## Missing entries and files -/

variable (state) in
/-- A lookup of the path, a link at its end not followed, answers that there is nothing. -/
def Vacant (path : Path) : Prop :=
  match state.locate path with
  | .ok location => state.tree.entries location = none
  | .error e => e.kind = .notFound

theorem vacant_iff {path : Path} :
    (∃ e, state.view.symlinkMetadata path = .error e ∧ e.kind = .notFound) ↔ state.Vacant path := by
  show (∃ e, state.locate path >>= state.inspect = .error e ∧ e.kind = .notFound) ↔ _
  unfold Vacant
  rcases state.locate path with e | location
  · constructor
    · rintro ⟨e, ⟨⟩, hkind⟩
      exact hkind
    · intro hkind
      exact ⟨e, rfl, hkind⟩
  show (∃ e, state.inspect location = .error e ∧ e.kind = .notFound) ↔ state.tree.entries location = none
  unfold inspect
  rcases hentry : state.tree.entries location with _ | (content | _ | ⟨absolute, target⟩ | e)
  · exact ⟨fun _ => rfl, fun _ => ⟨_, rfl, rfl⟩⟩
  · exact ⟨by rintro ⟨e, ⟨⟩, -⟩, by rintro ⟨⟩⟩
  · exact ⟨by rintro ⟨e, ⟨⟩, -⟩, by rintro ⟨⟩⟩
  · exact ⟨by rintro ⟨e, ⟨⟩, -⟩, by rintro ⟨⟩⟩
  · constructor
    · rintro ⟨e', ⟨⟩, hkind⟩
      exact absurd hkind (state.unreadable hentry)
    · rintro ⟨⟩

/-- Metadata of a regular file are those of the file the path leads to. -/
theorem metadata_isFile_iff {path : Path} {size : Nat} :
    (∃ metadata, state.view.metadata path = .ok metadata ∧ metadata.isFile = true ∧ metadata.len = size) ↔
      ∃ location content, state.resolve path = .ok location ∧ state.tree.entries location = some (.file content) ∧
        content.length = size := by
  show (∃ metadata, state.resolve path >>= state.inspect = .ok metadata ∧ _) ↔ _
  rcases state.resolve path with e | location
  · constructor
    · rintro ⟨metadata, ⟨⟩, -⟩
    · rintro ⟨location, content, ⟨⟩, -⟩
  show (∃ metadata, state.inspect location = .ok metadata ∧ _) ↔ _
  constructor
  · rintro ⟨metadata, hmetadata, hfile, hlen⟩
    unfold inspect at hmetadata
    rcases hentry : state.tree.entries location with _ | (content | _ | ⟨absolute, target⟩ | e)
    · rw [hentry] at hmetadata; cases hmetadata
    · rw [hentry] at hmetadata
      cases hmetadata
      exact ⟨location, content, rfl, hentry, hlen⟩
    · rw [hentry] at hmetadata; cases hmetadata; cases hfile
    · rw [hentry] at hmetadata; cases hmetadata; cases hfile
    · rw [hentry] at hmetadata; cases hmetadata
  · rintro ⟨location, content, ⟨⟩, hentry, hlen⟩
    refine ⟨⟨true, content.length⟩, ?_, rfl, hlen⟩
    unfold inspect
    rw [hentry]

theorem canonicalize_eq_ok_iff {path resolved : Path} :
    state.view.canonicalize path = .ok resolved ↔ ∃ location, state.canonical path = .ok location ∧ resolved = pathOf location := by
  show (state.canonical path).map pathOf = .ok resolved ↔ _
  rcases state.canonical path with e | location
  · exact ⟨by rintro ⟨⟩, by rintro ⟨location, ⟨⟩, -⟩⟩
  · exact ⟨by rintro ⟨⟩; exact ⟨location, rfl, rfl⟩, by rintro ⟨location, ⟨⟩, rfl⟩; rfl⟩

/-- Paths with one canonical path lead to one place. -/
theorem pathOf_inj {path path' : Path} {location location' : List Bytes} (h : state.canonical path = .ok location)
    (h' : state.canonical path' = .ok location') (hpath : pathOf location = pathOf location') : location = location' := by
  have hresolve := resolve_pathOf_of_canonical h
  rw [hpath, resolve_pathOf_of_canonical h'] at hresolve
  cases hresolve
  rfl

/-! ## A new file -/

/-- A place in a directory where there is no entry. -/
structure Place (state : FileSystem) where
  location : List Bytes
  inDirectory : state.tree.isDirectory location.dropLast = true
  named : ∀ name ∈ location, IsName name
  admitted : ∀ name ∈ location, state.tree.admits name = true
  free : state.tree.entries location = none

/-- What a path names is a name in a directory, when nothing is there. -/
theorem locate_free {path : Path} {location : List Bytes} (h : state.locate path = .ok location)
    (hfree : state.tree.entries location = none) :
    ∃ dir name, location = dir ++ [name] ∧ state.tree.isDirectory dir = true ∧ IsName name ∧
      state.tree.admits name = true := by
  unfold locate at h
  obtain ⟨-, h⟩ := guard_eq_ok_iff.1 h
  obtain ⟨-, h⟩ := guard_eq_ok_iff.1 h
  obtain ⟨dir, name, hlast, rfl, hdir, hname⟩ := state.tree.locate_free (mapError_eq_ok_iff.1 h) hfree
  refine ⟨dir, name, rfl, hdir, ?_, hname⟩
  apply isName_of_component hlast
  rcases List.eq_nil_or_concat (segments path.bytes) with hnil | ⟨dirs, last, hconcat⟩
  · rw [hnil]
    exact List.not_mem_nil
  · have hmem : last ∈ segments path.bytes := by
      rw [hconcat, List.concat_eq_append]
      exact List.mem_append_right _ (List.mem_cons_self ..)
    rw [hconcat, List.concat_eq_append, List.getLastD_concat]
    exact slash_notMem_of_mem_segments hmem

/-- The names on the way to an entry are all admitted. -/
theorem admitted_of_entry {location : List Bytes} (h : state.tree.entries location ≠ none) :
    ∀ name ∈ location, state.tree.admits name = true := by
  induction location using List.reverseRecOn with
  | nil => rintro name ⟨⟩
  | append_singleton dir last ih =>
    intro name hmem
    rcases List.mem_append.1 hmem with hmem | hmem
    · refine ih ?_ name hmem
      rw [state.tree.parent h]
      exact Option.some_ne_none _
    · obtain rfl := List.mem_singleton.1 hmem
      exact state.tree.admitted h

/-- What holds of the names of a directory and of one in it. -/
theorem forall_mem_free {path : Path} {location : List Bytes} (h : state.locate path = .ok location)
    (hfree : state.tree.entries location = none) {P : Bytes → Prop}
    (hold : ∀ {dir : List Bytes}, state.tree.entries dir ≠ none → ∀ name ∈ dir, P name)
    (hnew : ∀ name, IsName name → state.tree.admits name = true → P name) : ∀ name ∈ location, P name := by
  obtain ⟨dir, last, rfl, hdir, hname, hadmits⟩ := locate_free h hfree
  intro name hmem
  rcases List.mem_append.1 hmem with hmem | hmem
  · refine hold ?_ name hmem
    rw [state.tree.isDirectory_iff.1 hdir]
    exact Option.some_ne_none _
  · obtain rfl := List.mem_singleton.1 hmem
    exact hnew _ hname hadmits

/-- The place a path names. -/
def placeOf {path : Path} {location : List Bytes} (h : state.locate path = .ok location)
    (hfree : state.tree.entries location = none) : Place state where
  location := location
  inDirectory := by
    obtain ⟨dir, name, rfl, hdir, -⟩ := locate_free h hfree
    rw [List.dropLast_concat]
    exact hdir
  named := forall_mem_free h hfree state.named fun _ hname _ => hname
  admitted := forall_mem_free h hfree admitted_of_entry fun _ _ hadmits => hadmits
  free := hfree

/-- The file system with a file created. -/
def create (place : Place state) (content : Bytes) : FileSystem where
  tree := state.tree.create place.location (.file content) place.inDirectory place.admitted place.free
  workingDirectory := state.workingDirectory
  inode := state.inode
  nameMax := state.nameMax
  pathMax := state.pathMax
  working := FileTree.Tree.create_isDirectory state.working
  limited := state.limited
  named := by
    intro location h
    by_cases hnew : location = place.location
    · rw [hnew]
      exact place.named
    · rw [FileTree.Tree.create_entries_of_ne hnew] at h
      exact state.named h
  unreadable := by
    intro location e h
    by_cases hnew : location = place.location
    · rw [hnew, FileTree.Tree.create_entries_self] at h
      cases h
    · rw [FileTree.Tree.create_entries_of_ne hnew] at h
      exact state.unreadable h

section Create

variable {place : Place state} {content : Bytes}

theorem create_tree : (create place content).tree =
    state.tree.create place.location (.file content) place.inDirectory place.admitted place.free := rfl

/-- What was there stays. -/
theorem create_entries {location : List Bytes} (h : state.tree.entries location ≠ none) :
    (create place content).tree.entries location = state.tree.entries location := by
  rw [create_tree, FileTree.Tree.create_entries_of_ne]
  rintro rfl
  exact h place.free

theorem create_entries_self : (create place content).tree.entries place.location = some (.file content) := by
  rw [create_tree, FileTree.Tree.create_entries_self]

theorem resolve_create {path : Path} {location : List Bytes} (h : state.resolve path = .ok location) :
    (create place content).resolve path = .ok location := by
  obtain ⟨hne, hlen, hresolves⟩ := resolves_of_resolve h
  refine resolve_of_resolves hne hlen ?_
  rw [create_tree]
  exact hresolves.create

theorem canonical_create {path : Path} {location : List Bytes} (h : state.canonical path = .ok location) :
    (create place content).canonical path = .ok location := by
  rw [canonical_eq_ok_iff] at h ⊢
  exact ⟨resolve_create h.1, h.2⟩

theorem locate_create {path : Path} {location : List Bytes} (h : state.locate path = .ok location) :
    (create place content).locate path = .ok location := by
  unfold locate at h ⊢
  obtain ⟨hne, h⟩ := guard_eq_ok_iff.1 h
  obtain ⟨hlen, h⟩ := guard_eq_ok_iff.1 h
  refine guard_eq_ok_iff.2 ⟨hne, guard_eq_ok_iff.2 ⟨hlen, ?_⟩⟩
  rw [mapError_eq_ok_iff, create_tree]
  exact FileTree.Tree.locate_create (mapError_eq_ok_iff.1 h)

/-- A lookup elsewhere finds what it found. -/
theorem symlinkMetadata_create {path : Path} {location : List Bytes} (h : state.locate path = .ok location)
    (hne : location ≠ place.location) :
    (create place content).view.symlinkMetadata path = state.view.symlinkMetadata path := by
  show (create place content).locate path >>= (create place content).inspect = state.locate path >>= state.inspect
  rw [h, locate_create h]
  show (create place content).inspect location = state.inspect location
  unfold inspect
  rw [create_tree, FileTree.Tree.create_entries_of_ne hne]

/-- A lookup of the new file finds it. -/
theorem symlinkMetadata_create_self {path : Path} (h : state.locate path = .ok place.location) :
    (create place content).view.symlinkMetadata path = .ok ⟨true, content.length⟩ := by
  show (create place content).locate path >>= (create place content).inspect = _
  rw [locate_create h]
  show (create place content).inspect place.location = _
  unfold inspect
  rw [create_entries_self]

end Create

/-! ## Growth -/

/-- The file system after files were created in it, one after another. -/
inductive Grown (state : FileSystem) : FileSystem → Prop
  | refl : Grown state state
  | create {after : FileSystem} (h : Grown state after) (place : Place after) (content : Bytes) :
    Grown state (create place content)

namespace Grown

variable {after final : FileSystem}

theorem trans (h : Grown state after) (h' : Grown after final) : Grown state final := by
  induction h' with
  | refl => exact h
  | create _ place content ih => exact .create ih place content

/-- What was there stays. -/
theorem entries (h : Grown state after) {location : List Bytes} (hentry : state.tree.entries location ≠ none) :
    after.tree.entries location = state.tree.entries location := by
  induction h with
  | refl => rfl
  | create _ place content ih => rw [create_entries (by rw [ih]; exact hentry), ih]

theorem resolve (h : Grown state after) {path : Path} {location : List Bytes} (hresolve : state.resolve path = .ok location) :
    after.resolve path = .ok location := by
  induction h with
  | refl => exact hresolve
  | create _ place content ih => exact resolve_create ih

theorem locate (h : Grown state after) {path : Path} {location : List Bytes} (hlocate : state.locate path = .ok location) :
    after.locate path = .ok location := by
  induction h with
  | refl => exact hlocate
  | create _ place content ih => exact locate_create ih

theorem inode (h : Grown state after) : after.inode = state.inode := by
  induction h with
  | refl => rfl
  | create _ place content ih => exact ih

/-- A path that leads somewhere opens the same file. -/
theorem openFile (h : Grown state after) {path : Path} {location : List Bytes} (hresolve : state.resolve path = .ok location) :
    after.view.openFile path = state.view.openFile path := by
  have hentry : state.tree.entries location ≠ none := by
    rcases isTarget_of_resolve hresolve with hdir | ⟨content, hfile⟩
    · rw [state.tree.isDirectory_iff.1 hdir]
      exact Option.some_ne_none _
    · rw [hfile]
      exact Option.some_ne_none _
  unfold view
  dsimp only
  rw [hresolve, h.resolve hresolve]
  simp only [Except.map, h.entries hentry]

theorem fileId (h : Grown state after) {path : Path} {location : List Bytes} (hresolve : state.resolve path = .ok location) :
    after.view.fileId path = state.view.fileId path := by
  unfold view
  dsimp only
  rw [hresolve, h.resolve hresolve, h.inode]

end Grown

end FileSystem

end Veilite.Turso
