/-
Processes that share files. Each creates a file where there is none, fills it, and may remove it again; others do
what they like with the files that are not the processes'. A process that keeps to this order, a `Policy`, has
its file for itself: under any interleaving the file holds what the process wrote, at the place it chose, and no step
of a process changes anything but its own file.
-/
import Veilite.Lib.Interact
import Mathlib.Logic.Function.Basic

namespace Exclusive

open Interact

/-! ## Files -/

/-- What a process asks for. `write` and `sync` are about the file it created last. -/
inductive Op (κ β : Type)
  | create (place : κ)
  | write (data : List β)
  | sync
  | remove (place : κ)

/-- The answer says whether it was done. -/
abbrev Files (κ β : Type) : Interface := ⟨Op κ β, fun _ => Bool⟩

/-- What each place names, what each file holds, and the file each process created last. -/
structure State (ι κ φ β : Type) where
  entries : κ → Option φ
  content : φ → List β
  handle : ι → Option φ

variable {ι κ φ β : Type}

/-- No place names the file, and no process created it. -/
structure State.Fresh (s : State ι κ φ β) (file : φ) : Prop where
  unnamed : ∀ place, s.entries place ≠ some file
  unheld : ∀ process, s.handle process ≠ some file

section Updates

variable (s : State ι κ φ β)

/-- The process creates the file, empty, at the place. -/
def State.create [DecidableEq ι] [DecidableEq κ] [DecidableEq φ] (process : ι) (place : κ) (file : φ) : State ι κ φ β :=
  ⟨Function.update s.entries place (some file), Function.update s.content file [], Function.update s.handle process (some file)⟩

def State.append [DecidableEq φ] (file : φ) (data : List β) : State ι κ φ β :=
  { s with content := Function.update s.content file (s.content file ++ data) }

def State.unlink [DecidableEq κ] (place : κ) : State ι κ φ β :=
  { s with entries := Function.update s.entries place none }

@[simp] theorem State.append_handle [DecidableEq φ] (file : φ) (data : List β) : (s.append file data).handle = s.handle := rfl

@[simp] theorem State.append_content [DecidableEq φ] (file : φ) (data : List β) :
    (s.append file data).content file = s.content file ++ data := Function.update_self ..

theorem State.append_content_of_ne [DecidableEq φ] {file other : φ} (h : other ≠ file) (data : List β) :
    (s.append file data).content other = s.content other := Function.update_of_ne h ..

@[simp] theorem State.unlink_entries [DecidableEq κ] (place : κ) : (s.unlink place).entries place = none :=
  Function.update_self ..

theorem State.unlink_entries_of_ne [DecidableEq κ] {place other : κ} (h : other ≠ place) :
    (s.unlink place).entries other = s.entries other := Function.update_of_ne h ..

variable [DecidableEq ι] [DecidableEq κ] [DecidableEq φ] (process : ι) (place : κ) (file : φ)

@[simp] theorem State.create_entries : (s.create process place file).entries place = some file := Function.update_self ..

@[simp] theorem State.create_content : (s.create process place file).content file = [] := Function.update_self ..

@[simp] theorem State.create_handle : (s.create process place file).handle process = some file := Function.update_self ..

variable {process place file}

theorem State.create_entries_of_ne {other : κ} (h : other ≠ place) :
    (s.create process place file).entries other = s.entries other := Function.update_of_ne h ..

theorem State.create_content_of_ne {other : φ} (h : other ≠ file) :
    (s.create process place file).content other = s.content other := Function.update_of_ne h ..

theorem State.create_handle_of_ne {other : ι} (h : other ≠ process) :
    (s.create process place file).handle other = s.handle other := Function.update_of_ne h ..

/-- Another new file stays one. -/
theorem State.Fresh.create {s : State ι κ φ β} {other : φ} (h : s.Fresh other) (hne : other ≠ file) :
    (s.create process place file).Fresh other where
  unnamed place' := by
    by_cases hplace : place' = place
    · rw [hplace, s.create_entries]
      exact fun heq => hne (Option.some.inj heq).symm
    · rw [s.create_entries_of_ne hplace]
      exact h.unnamed place'
  unheld process' := by
    by_cases hprocess : process' = process
    · rw [hprocess, s.create_handle]
      exact fun heq => hne (Option.some.inj heq).symm
    · rw [s.create_handle_of_ne hprocess]
      exact h.unheld process'

end Updates

section Steps

variable [DecidableEq ι] [DecidableEq κ] [DecidableEq φ]

/-- One operation of a process. A file is created only where there is no entry; a write that fails may have written a
part of its data. -/
inductive Step (process : ι) (s : State ι κ φ β) : Op κ β → Bool → State ι κ φ β → Prop
  | created {place : κ} {file : φ} : s.entries place = none → s.Fresh file →
      Step process s (.create place) true (s.create process place file)
  | refused {place : κ} : Step process s (.create place) false s
  | written {file : φ} {data : List β} : s.handle process = some file → Step process s (.write data) true (s.append file data)
  | torn {file : φ} {data part : List β} : s.handle process = some file → part <+: data →
      Step process s (.write data) false (s.append file part)
  | synced {done : Bool} : Step process s .sync done s
  | removed {place : κ} : s.entries place ≠ none → Step process s (.remove place) true (s.unlink place)
  | kept {place : κ} : Step process s (.remove place) false s

/-- What others do: anything, but not to the files of the processes. -/
structure Outside (s s' : State ι κ φ β) : Prop where
  handle : s'.handle = s.handle
  content : ∀ process file, s.handle process = some file → s'.content file = s.content file
  entries : ∀ process file, s.handle process = some file → ∀ place, s'.entries place = some file ↔ s.entries place = some file

/-- The steps of the processes and of others, in any order; `none` is a step of others. -/
inductive Trace (start : State ι κ φ β) : List (Option (ι × Event (Files κ β))) → State ι κ φ β → Prop
  | start : Trace start [] start
  | step {acts : List (Option (ι × Event (Files κ β)))} {s s' : State ι κ φ β} {process : ι} {event : Event (Files κ β)} :
      Trace start acts s → Step process s event.1 event.2 s' → Trace start (acts ++ [some (process, event)]) s'
  | outside {acts : List (Option (ι × Event (Files κ β)))} {s s' : State ι κ φ β} :
      Trace start acts s → Outside s s' → Trace start (acts ++ [none]) s'

end Steps

/-! ## The part of one process -/

section Own

variable {ε : Type} [DecidableEq ι]

/-- The events of one process among the steps. -/
def own (process : ι) (acts : List (Option (ι × ε))) : List ε :=
  acts.filterMap fun act => act.bind fun a => if a.1 = process then some a.2 else none

@[simp] theorem own_nil (process : ι) : own process ([] : List (Option (ι × ε))) = [] := rfl

@[simp] theorem own_append (process : ι) (before acts : List (Option (ι × ε))) :
    own process (before ++ acts) = own process before ++ own process acts := List.filterMap_append

@[simp] theorem own_outside (process : ι) : own process [(none : Option (ι × ε))] = [] := rfl

@[simp] theorem own_self (process : ι) (event : ε) : own process [some (process, event)] = [event] := by
  simp [own]

theorem own_other {process other : ι} (h : other ≠ process) (event : ε) : own process [some (other, event)] = [] := by
  simp [own, h]

end Own

/-! ## The order to keep -/

/-- Where a process is: without a file; with one at a place, with what was written whole and what a failed write left
in part; or after it removed its file. -/
inductive Stage (κ β : Type)
  | idle
  | holding (place : κ) (written torn : List β)
  | gone

def Stage.allows : Stage κ β → Op κ β → Prop
  | .idle, .create _ => True
  | .holding _ _ torn, .write _ => torn = []
  | .holding _ _ _, .sync => True
  | .holding place _ _, .remove place' => place' = place
  | _, _ => False

def Stage.next : Stage κ β → Op κ β → Bool → Stage κ β
  | .idle, .create place, true => .holding place [] []
  | .holding place written _, .write data, true => .holding place (written ++ data) []
  | .holding place written _, .write data, false => .holding place written data
  | .holding _ _ _, .remove _, true => .gone
  | stage, _, _ => stage

/-- One file, created before it is written and removed at its own place. -/
def order (κ β : Type) : Policy (Files κ β) (Stage κ β) where
  allows := Stage.allows
  next := Stage.next

/-! ## Having a file for oneself -/

/-- What a process has at a stage: its file is named at its place and nowhere else, and holds what it wrote. -/
def Stage.Has (s : State ι κ φ β) (process : ι) : Stage κ β → Prop
  | .idle => s.handle process = none
  | .holding place written torn => ∃ file part, s.handle process = some file ∧
      (∀ place', s.entries place' = some file ↔ place' = place) ∧ part <+: torn ∧ s.content file = written ++ part
  | .gone => ∃ file, s.handle process = some file ∧ ∀ place, s.entries place ≠ some file

/-- Every process has what its stage says, and no two have one file. -/
structure Owned (stages : ι → Stage κ β) (s : State ι κ φ β) : Prop where
  has : ∀ process, (stages process).Has s process
  apart : ∀ {a b file}, s.handle a = some file → s.handle b = some file → a = b

/-- A step that changes nothing but the file of the process: entries only appear for it where there were none, and
disappear where they named it. -/
structure Touches (process : ι) (s s' : State ι κ φ β) : Prop where
  handle : ∀ other, other ≠ process → s'.handle other = s.handle other
  content : ∀ file, s'.content file = s.content file ∨ s'.handle process = some file
  entries : ∀ place, s'.entries place = s.entries place ∨
    (s.entries place = none ∧ s'.entries place ≠ none ∧ s'.entries place = s'.handle process) ∨
    (s.entries place ≠ none ∧ s.entries place = s.handle process ∧ s'.entries place = none)

section Ownership

variable {s s' : State ι κ φ β} {stages : ι → Stage κ β}

/-- What happens to other files does not matter. -/
theorem Stage.Has.frame {stage : Stage κ β} {process : ι} (h : stage.Has s process)
    (hhandle : s'.handle process = s.handle process)
    (hfile : ∀ file, s.handle process = some file → s'.content file = s.content file ∧
      ∀ place, s'.entries place = some file ↔ s.entries place = some file) : stage.Has s' process := by
  cases stage with
  | idle => exact hhandle.trans h
  | holding place written torn =>
    obtain ⟨file, part, hhold, hnamed, hpart, hcontent⟩ := h
    obtain ⟨hsame, hentries⟩ := hfile file hhold
    exact ⟨file, part, hhandle.trans hhold, fun place' => (hentries place').trans (hnamed place'), hpart, hsame.trans hcontent⟩
  | gone =>
    obtain ⟨file, hhold, hunnamed⟩ := h
    obtain ⟨-, hentries⟩ := hfile file hhold
    exact ⟨file, hhandle.trans hhold, fun place hplace => hunnamed place ((hentries place).1 hplace)⟩

theorem Owned.outside (h : Owned stages s) (hout : Outside s s') : Owned stages s' where
  has process := (h.has process).frame (by rw [hout.handle]) fun file hhold =>
    ⟨hout.content process file hhold, hout.entries process file hhold⟩
  apart {a b file} ha hb := by
    rw [hout.handle] at ha hb
    exact h.apart ha hb

/-- A step that touches one process's file leaves what another has. -/
theorem Owned.frame (h : Owned stages s) {process other : ι} (htouches : Touches process s s')
    (hapart : ∀ {a b file}, s'.handle a = some file → s'.handle b = some file → a = b) (hne : other ≠ process) :
    (stages other).Has s' other := by
  refine (h.has other).frame (htouches.handle other hne) fun file hhold => ?_
  have hhold' : s'.handle other = some file := (htouches.handle other hne).trans hhold
  have hnot : s.handle process ≠ some file := fun hown => hne (h.apart hhold hown)
  have hnot' : s'.handle process ≠ some file := fun hown => hne (hapart hhold' hown)
  refine ⟨(htouches.content file).resolve_right hnot', fun place => ?_⟩
  rcases htouches.entries place with hsame | ⟨hnone, -, hnew⟩ | ⟨-, hold, hnone⟩
  · rw [hsame]
  · rw [hnone, hnew]
    exact ⟨fun hplace => absurd hplace hnot', by rintro ⟨⟩⟩
  · rw [hold, hnone]
    exact ⟨by rintro ⟨⟩, fun hplace => absurd hplace hnot⟩

/-- A file of a process that is still named is at its place, with what it wrote. -/
theorem Owned.named (h : Owned stages s) {process : ι} {file : φ} {place : κ} (hhold : s.handle process = some file)
    (hentry : s.entries place = some file) : ∃ written torn part, stages process = .holding place written torn ∧
      part <+: torn ∧ s.content file = written ++ part := by
  have hhas := h.has process
  generalize stages process = stage at hhas
  cases stage with
  | idle => simp [show s.handle process = none from hhas] at hhold
  | holding place' written torn =>
    obtain ⟨file', part, hhold', hnamed, hpart, hcontent⟩ := hhas
    obtain rfl : file' = file := Option.some.inj (hhold'.symm.trans hhold)
    obtain rfl := (hnamed place).1 hentry
    exact ⟨written, torn, part, rfl, hpart, hcontent⟩
  | gone =>
    obtain ⟨file', hhold', hunnamed⟩ := hhas
    obtain rfl : file' = file := Option.some.inj (hhold'.symm.trans hhold)
    exact absurd hentry (hunnamed place)

variable [DecidableEq ι] [DecidableEq κ] [DecidableEq φ]

/-- An allowed step touches nothing but the file of its process. -/
theorem Owned.touches (h : Owned stages s) {process : ι} {op : Op κ β} {done : Bool}
    (hallows : (stages process).allows op) (hstep : Step process s op done s') : Touches process s s' := by
  have hhas := h.has process
  cases hstep with
  | @created place file hfree hfresh =>
    refine ⟨fun other hne => s.create_handle_of_ne hne, fun file' => ?_, fun place' => ?_⟩
    · by_cases hfile : file' = file
      · exact .inr (by simp [hfile])
      · exact .inl (s.create_content_of_ne hfile)
    · by_cases hplace : place' = place
      · exact .inr (.inl (by simp [hplace, hfree]))
      · exact .inl (s.create_entries_of_ne hplace)
  | refused => exact ⟨fun _ _ => rfl, fun _ => .inl rfl, fun _ => .inl rfl⟩
  | @written file data hhold =>
    refine ⟨fun _ _ => rfl, fun file' => ?_, fun _ => .inl rfl⟩
    by_cases hfile : file' = file
    · exact .inr (hfile ▸ hhold)
    · exact .inl (s.append_content_of_ne hfile data)
  | @torn file data part hhold hpart =>
    refine ⟨fun _ _ => rfl, fun file' => ?_, fun _ => .inl rfl⟩
    by_cases hfile : file' = file
    · exact .inr (hfile ▸ hhold)
    · exact .inl (s.append_content_of_ne hfile part)
  | synced => exact ⟨fun _ _ => rfl, fun _ => .inl rfl, fun _ => .inl rfl⟩
  | @removed place hentry =>
    refine ⟨fun _ _ => rfl, fun _ => .inl rfl, fun place' => ?_⟩
    by_cases hplace : place' = place
    · -- what is removed is the file the process has at this place
      subst hplace
      generalize stages process = stage at hallows hhas
      cases stage with
      | holding place written torn =>
        obtain rfl : place' = place := hallows
        obtain ⟨file, part, hhold, hnamed, -⟩ := hhas
        exact .inr (.inr ⟨hentry, by rw [hhold, (hnamed place').2 rfl], by simp⟩)
      | idle => exact hallows.elim
      | gone => exact hallows.elim
    · exact .inl (s.unlink_entries_of_ne hplace)
  | kept => exact ⟨fun _ _ => rfl, fun _ => .inl rfl, fun _ => .inl rfl⟩

theorem Owned.apart_step (h : Owned stages s) {process : ι} {op : Op κ β} {done : Bool} (hstep : Step process s op done s')
    {a b : ι} {file : φ} (ha : s'.handle a = some file) (hb : s'.handle b = some file) : a = b := by
  cases hstep with
  | @created place new hfree hfresh =>
    -- the new file is nobody else's
    have hnew : ∀ {c}, (s.create process place new).handle c = some file →
        c = process ∧ file = new ∨ c ≠ process ∧ file ≠ new ∧ s.handle c = some file := by
      intro c hc
      by_cases hcp : c = process
      · subst hcp
        rw [s.create_handle] at hc
        exact .inl ⟨rfl, (Option.some.inj hc).symm⟩
      · rw [s.create_handle_of_ne hcp] at hc
        refine .inr ⟨hcp, ?_, hc⟩
        rintro rfl
        exact hfresh.unheld c hc
    rcases hnew ha with ⟨hap, hfile⟩ | ⟨-, hfile, ha⟩
    · rcases hnew hb with ⟨hbp, -⟩ | ⟨-, hfile', -⟩
      · exact hap.trans hbp.symm
      · exact absurd hfile hfile'
    · rcases hnew hb with ⟨-, hfile'⟩ | ⟨-, -, hb⟩
      · exact absurd hfile' hfile
      · exact h.apart ha hb
  | _ => exact h.apart ha hb

/-- What the process of an allowed step has after it. -/
theorem Owned.has_next (h : Owned stages s) {process : ι} {op : Op κ β} {done : Bool}
    (hallows : (stages process).allows op) (hstep : Step process s op done s') :
    ((stages process).next op done).Has s' process := by
  have hhas := h.has process
  generalize stages process = stage at hallows hhas
  -- what the stage allows decides which steps there are
  cases stage with
  | idle =>
    cases hstep with
    | @created place file hfree hfresh =>
      refine ⟨file, [], by simp, fun place' => ?_, List.nil_prefix, by simp⟩
      by_cases hplace : place' = place
      · simp [hplace]
      · rw [s.create_entries_of_ne hplace]
        exact ⟨fun hnamed => absurd hnamed (hfresh.unnamed place'), fun heq => absurd heq hplace⟩
    | refused => exact hhas
    | _ => exact hallows.elim
  | holding place written torn =>
    obtain ⟨file, part, hhold, hnamed, hpart, hcontent⟩ := hhas
    cases hstep with
    | @written file' data hhold' =>
      obtain rfl : file = file' := Option.some.inj (hhold.symm.trans hhold')
      obtain rfl : torn = [] := hallows
      obtain rfl := List.prefix_nil.1 hpart
      exact ⟨file, [], hhold, hnamed, List.nil_prefix, by simp [hcontent]⟩
    | @torn file' data part' hhold' hpart' =>
      obtain rfl : file = file' := Option.some.inj (hhold.symm.trans hhold')
      obtain rfl : torn = [] := hallows
      obtain rfl := List.prefix_nil.1 hpart
      exact ⟨file, part', hhold, hnamed, hpart', by simp [hcontent]⟩
    | synced => exact ⟨file, part, hhold, hnamed, hpart, hcontent⟩
    | @removed place' hentry =>
      obtain rfl : place' = place := hallows
      refine ⟨file, hhold, fun place'' hplace => ?_⟩
      by_cases heq : place'' = place'
      · simp [heq] at hplace
      · rw [s.unlink_entries_of_ne heq] at hplace
        exact heq ((hnamed place'').1 hplace)
    | kept => exact ⟨file, part, hhold, hnamed, hpart, hcontent⟩
    | _ => exact hallows.elim
  | gone => exact hallows.elim

/-- An allowed step of one process keeps what every process has. -/
theorem Owned.step (h : Owned stages s) {process : ι} {op : Op κ β} {done : Bool}
    (hallows : (stages process).allows op) (hstep : Step process s op done s') :
    Owned (Function.update stages process ((stages process).next op done)) s' where
  has other := by
    by_cases hother : other = process
    · subst hother
      rw [Function.update_self]
      exact h.has_next hallows hstep
    · rw [Function.update_of_ne hother]
      exact h.frame (h.touches hallows hstep) (h.apart_step hstep) hother
  apart := h.apart_step hstep

end Ownership

/-! ## Runs -/

section Runs

variable [DecidableEq ι] [DecidableEq κ] [DecidableEq φ] {start s : State ι κ φ β}
  {acts : List (Option (ι × Event (Files κ β)))}

/-- Under any interleaving, processes that keep the order have their files for themselves. -/
theorem Trace.owned (h : Trace start acts s) (hstart : ∀ process, start.handle process = none)
    (horder : ∀ process, (order κ β).Obeys .idle (own process acts)) :
    Owned (fun process => (order κ β).after .idle (own process acts)) s := by
  induction h with
  | start => exact ⟨hstart, fun {a b file} ha => by simp [hstart] at ha⟩
  | @step acts s s' process event _ hstep ih =>
    have hbefore : ∀ other, (order κ β).Obeys .idle (own other acts) := fun other => by
      have := horder other
      rw [own_append, Policy.obeys_append] at this
      exact this.1
    have hallows := horder process
    rw [own_append, own_self] at hallows
    have hnext := (ih hbefore).step hallows.allows hstep
    convert hnext using 1
    funext other
    by_cases hother : process = other
    · subst hother
      simp [order]
    · rw [own_append, own_other hother, List.append_nil, Function.update_of_ne (Ne.symm hother)]
  | outside _ hout ih =>
    simp only [own_append, own_outside, List.append_nil] at horder ⊢
    exact (ih horder).outside hout

end Runs

end Exclusive
