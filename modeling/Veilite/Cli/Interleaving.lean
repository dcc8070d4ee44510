/-
Several runs of `verify` and `export` at once, on one file system: step by step in any order, between the steps of
others, and some of them killed on the way. Creating the destination only where there is nothing, and removing only
what it created, a run has its file for itself.
-/
import Veilite.Lib.Exclusive
import Veilite.Cli.History
import Veilite.Cli.Refinement
import Veilite.Cli.Standalone

namespace Veilite.Cli.Stepwise

open Buffer Veilite.Core Turso Interact Exclusive

/-! ## What runs do to the files

A path is taken to lead to one place throughout: nobody re-points a link or a directory on the way to an output. -/

section Acts

variable {ι κ : Type} (place : Path → κ)

/-- The operation on the files, at the place the path names. -/
def Effect.act : Effect → Event (Files κ UInt8)
  | .create path done => ⟨.create (place path), done⟩
  | .write bytes done => ⟨.write bytes, done⟩
  | .sync done => ⟨.sync, done⟩
  | .remove path done => ⟨.remove (place path), done⟩

/-- The steps that are about the destinations, and the steps of others. -/
def acts (trace : List (Option (ι × Event Host))) : List (Option (ι × Event (Files κ UInt8))) :=
  trace.filterMap fun
    | none => some none
    | some (process, event) => (effect event).map fun effect => some (process, effect.act place)

@[simp] theorem acts_append (before trace : List (Option (ι × Event Host))) :
    acts place (before ++ trace) = acts place before ++ acts place trace := List.filterMap_append

/-- A process does to the files what its own events do. -/
theorem own_acts [DecidableEq ι] (process : ι) (trace : List (Option (ι × Event Host))) :
    own process (acts place trace) = (effects (own process trace)).map (Effect.act place) := by
  induction trace using List.reverseRecOn with
  | nil => rfl
  | append_singleton trace step ih =>
    rw [acts_append, own_append, own_append, effects_append, List.map_append, ih]
    congr 1
    rcases step with _ | ⟨other, event⟩
    · rfl
    by_cases hother : other = process
    · subst hother
      rw [own_self, effects_singleton]
      rcases heffect : effect event with _ | done
      · simp [acts, heffect]
      · simp [acts, heffect, own]
    · rw [own_other hother]
      rcases heffect : effect event with _ | done
      · simp [acts, heffect]
      · simp [acts, heffect, own, hother]

end Acts

/-! ## The order of a run -/

section Order

variable {κ : Type} (place : Path → κ)

/-- Writing pages one after another. -/
theorem order_writes (at_ : κ) (pages : List Bytes) : ∀ written : Bytes,
    (order κ UInt8).Obeys (.holding at_ written []) ((pages.map (Effect.write · true)).map (Effect.act place)) ∧
      (order κ UInt8).after (.holding at_ written []) ((pages.map (Effect.write · true)).map (Effect.act place)) =
        .holding at_ (written ++ pages.flatten) [] := by
  induction pages with
  | nil => simp
  | cons page pages ih =>
    intro written
    obtain ⟨hobeys, hafter⟩ := ih (written ++ page)
    refine ⟨⟨rfl, hobeys⟩, ?_⟩
    rw [List.flatten_cons, ← List.append_assoc]
    exact hafter

theorem order_filled (path : Path) (pages : List Bytes) :
    (order κ UInt8).Obeys .idle ((filled path pages).map (Effect.act place)) ∧
      (order κ UInt8).after .idle ((filled path pages).map (Effect.act place)) = .holding (place path) pages.flatten [] := by
  obtain ⟨hobeys, hafter⟩ := order_writes place (place path) pages []
  exact ⟨⟨trivial, hobeys⟩, hafter⟩

variable {pages : List Bytes} {written : Nat} {failed : List Effect}

/-- As far as the pages were written, and what failed. -/
theorem order_failed (path : Path) (h : Failure pages written failed) : ∃ torn,
    (order κ UInt8).Obeys .idle ((filled path (pages.take written) ++ failed).map (Effect.act place)) ∧
      (order κ UInt8).after .idle ((filled path (pages.take written) ++ failed).map (Effect.act place)) =
        .holding (place path) (pages.take written).flatten torn ∧
      (pages.take written).flatten ++ torn <+: pages.flatten := by
  obtain ⟨hobeys, hafter⟩ := order_filled place path (pages.take written)
  have htake : (pages.take written).flatten <+: pages.flatten := (List.take_prefix written pages).flatten
  rw [List.map_append, Policy.obeys_append, Policy.after_append, hafter]
  rcases h with rfl | ⟨page, hpage, rfl⟩ | ⟨-, rfl⟩
  · exact ⟨[], ⟨hobeys, by simp⟩, rfl, by simpa using htake⟩
  · refine ⟨page, ⟨hobeys, rfl, trivial⟩, rfl, ?_⟩
    have hsucc : pages.take (written + 1) = pages.take written ++ [page] := by
      rw [List.take_add_one, hpage]
      rfl
    have hlonger := (List.take_prefix (written + 1) pages).flatten
    rwa [hsucc, List.flatten_append, List.flatten_singleton] at hlonger
  · exact ⟨[], ⟨hobeys, trivial, trivial⟩, rfl, by simpa using htake⟩

/-- Where a run of the job with these pages may be. -/
def Fills (job : Job) (pages : List Bytes) : Stage κ UInt8 → Prop
  | .holding at_ written torn => ∃ path, job.output = some path ∧ at_ = place path ∧ written ++ torn <+: pages.flatten
  | _ => True

theorem Doing.order {job : Job} {path : Path} (houtput : job.output = some path) {intact : Bool} {effects : List Effect}
    {destination : Destination} (h : Doing path pages written intact effects destination) :
    (order κ UInt8).Obeys .idle (effects.map (Effect.act place)) ∧
      Fills place job pages ((Exclusive.order κ UInt8).after .idle (effects.map (Effect.act place))) := by
  cases destination with
  | untouched =>
    rcases h with rfl | ⟨-, rfl⟩
    · exact ⟨trivial, trivial⟩
    · exact ⟨⟨trivial, trivial⟩, trivial⟩
  | created =>
    obtain ⟨failed, hfailed, -, rfl⟩ := h
    obtain ⟨torn, hobeys, hafter, hprefix⟩ := order_failed place path hfailed
    exact ⟨hobeys, by rw [hafter]; exact ⟨path, houtput, rfl, hprefix⟩⟩
  | synced =>
    obtain rfl : effects = filled path pages ++ [Effect.sync true] := h
    obtain ⟨hobeys, hafter⟩ := order_filled place path pages
    rw [List.map_append, Policy.obeys_append, Policy.after_append, hafter]
    exact ⟨⟨hobeys, trivial, trivial⟩, path, houtput, rfl, by simp⟩
  | removed =>
    obtain ⟨failed, done, hfailed, rfl⟩ := h
    obtain ⟨torn, hobeys, hafter, hprefix⟩ := order_failed place path hfailed
    rw [List.map_append, Policy.obeys_append, Policy.after_append, hafter]
    refine ⟨⟨hobeys, rfl, trivial⟩, ?_⟩
    cases done with
    | true => trivial
    | false => exact ⟨path, houtput, rfl, hprefix⟩

end Order

/-! ## One run among others -/

section Runs

variable (C : Primitives) (job : Job)

/-- The events are those of a run of the job so far, in some environment: it may still go on, or have been killed. -/
def Underway (events : List (Event Host)) : Prop :=
  ∃ (σ : Type) (env : Environment Host σ) (s s' : σ) (ended : Except CliError Unit) (all : List (Event Host)),
    run C env job.command (s, []) = some (ended, (s', all)) ∧ events <+: all

/-- The events are those of a whole run of the job, which ended so. -/
def Over (events : List (Event Host)) (ended : Except CliError Unit) : Prop :=
  ∃ (σ : Type) (env : Environment Host σ) (s s' : σ), run C env job.command (s, []) = some (ended, (s', events))

/-- Each page was read in the run for its own place, and authenticated there. -/
def Authenticated (events : List (Event Host)) (pages : List Bytes) : Prop :=
  ∃ config, job.cipher.config = .ok config ∧ ∀ k page, pages[k]? = some page → Provides events C config job k page

/-- The content is all the pages there are, authenticated. -/
def Whole (events : List (Event Host)) (content : Bytes) : Prop :=
  ∃ (config : CipherConfig) (pages : List Bytes), job.cipher.config = .ok config ∧
    (∀ k page, pages[k]? = some page → Provides events C config job k page) ∧
    Counted events config job pages.length ∧ content = pages.flatten

variable {C job} {events : List (Event Host)}

theorem Underway.earlier {before : List (Event Host)} (h : Underway C job events) (hbefore : before <+: events) :
    Underway C job before := by
  obtain ⟨σ, env, s, s', ended, all, hrun, hevents⟩ := h
  exact ⟨σ, env, s, s', ended, all, hrun, hbefore.trans hevents⟩

/-- A run obeys its policy as far as it got; without a configuration it got nowhere. -/
theorem Underway.obeys (h : Underway C job events) :
    events = [] ∨ ∃ config, job.cipher.config = .ok config ∧ (policy C config job).Obeys .start events := by
  obtain ⟨σ, env, s, s', ended, all, hrun, hevents⟩ := h
  rcases hconfig : job.cipher.config with e | config
  · left
    rw [run_of_config_error C job env hconfig] at hrun
    simp only [Option.some.injEq, Prod.mk.injEq] at hrun
    rw [← hrun.2.2] at hevents
    exact List.prefix_nil.1 hevents
  · right
    obtain ⟨ended', s'', all', hrun', hobeys, -⟩ := job_ensures C config job env hconfig s []
    obtain ⟨-, -, rfl⟩ : ended' = ended ∧ s'' = s' ∧ all' = all := by simpa [hrun] using hrun'.symm
    obtain ⟨rest, rfl⟩ := hevents
    exact ⟨config, rfl, ((policy C config job).obeys_append.1 hobeys).1⟩

/-- So far, a run kept to the order, with authenticated pages. -/
theorem Underway.order {κ : Type} (place : Path → κ) (h : Underway C job events) :
    (order κ UInt8).Obeys .idle ((effects events).map (Effect.act place)) ∧
      (effects events = [] ∨ ∃ pages, Authenticated C job events pages ∧
        Fills place job pages ((Exclusive.order κ UInt8).after .idle ((effects events).map (Effect.act place)))) := by
  rcases h.obeys with rfl | ⟨config, hconfig, hobeys⟩
  · exact ⟨trivial, .inl rfl⟩
  have hknown := known_of_obeys hobeys
  by_cases hpages : ∃ paging, (policy C config job).after .start events = .pages paging
  · obtain ⟨paging, hpaging⟩ := hpages
    rw [hpaging] at hknown
    rcases houtput : job.output with _ | path
    · rw [(hknown.unwanted houtput).1]
      exact ⟨trivial, .inl rfl⟩
    · obtain ⟨hkept, hfills⟩ := (hknown.doing path houtput).order place houtput
      exact ⟨hkept, .inr ⟨paging.pages, ⟨config, hconfig, hknown.pages⟩, hfills⟩⟩
  · rw [hknown.effects_of_not_pages fun paging hpaging => hpages ⟨paging, hpaging⟩]
    exact ⟨trivial, .inl rfl⟩

/-- What a whole run has to show for it. -/
theorem Over.pages {ended : Except CliError Unit} (h : Over C job events ended) :
    effects events = [] ∧ ended ≠ .ok () ∨ ∃ config pages, job.cipher.config = .ok config ∧
      (∀ k page, pages[k]? = some page → Provides events C config job k page) ∧
      (∀ path, job.output = some path → Trail path pages (effects events)) ∧
      (.sync true ∈ effects events → Counted events config job pages.length) ∧
      (ended = .ok () → Counted events config job pages.length ∧
        ∀ path, job.output = some path → effects events = filled path pages ++ [.sync true]) := by
  obtain ⟨σ, env, s, s', hrun⟩ := h
  rcases hconfig : job.cipher.config with e | config
  · left
    rw [run_of_config_error C job env hconfig] at hrun
    simp only [Option.some.injEq, Prod.mk.injEq] at hrun
    rw [← hrun.2.2, ← hrun.1]
    exact ⟨rfl, by rintro ⟨⟩⟩
  · right
    obtain ⟨pages, hprovides, -, htrail, hsync, hok⟩ := pages_of_run C hconfig hrun
    exact ⟨config, pages, rfl, hprovides, htrail, hsync, hok⟩

/-- An effect that was done was answered so. -/
theorem answered_of_sync (h : .sync true ∈ effects events) : Answered events .syncAll (.ok ()) := by
  obtain ⟨⟨call, reply⟩, hmem, heffect⟩ := List.mem_filterMap.1 h
  cases call with
  | syncAll =>
    rcases reply with e | _
    · simp [effect, Except.isOk, Except.toBool] at heffect
    · exact hmem
  | _ => cases heffect

theorem answered_of_remove {path : Path} (h : .remove path false ∈ effects events) :
    ∃ e, Answered events (.removeFile path) (.error e) := by
  obtain ⟨⟨call, reply⟩, hmem, heffect⟩ := List.mem_filterMap.1 h
  cases call with
  | removeFile path' =>
    rcases reply with e | _
    · simp only [effect, Option.some.injEq, Effect.remove.injEq] at heffect
      rw [← heffect.1]
      exact ⟨e, hmem⟩
    · simp [effect, Except.isOk, Except.toBool] at heffect
  | _ => cases heffect

end Runs

/-! ## Runs among one another -/

section Together

variable {C : Primitives} {ι κ φ : Type} [DecidableEq ι] {place : Path → κ} {jobs : ι → Job} {start s : State ι κ φ UInt8}
  {trace : List (Option (ι × Event Host))}

/-- Where a process is by its events. -/
def stageOf (place : Path → κ) (trace : List (Option (ι × Event Host))) (process : ι) : Stage κ UInt8 :=
  (order κ UInt8).after .idle ((effects (own process trace)).map (Effect.act place))

/-- What is at a destination came from a run that was given it, and is the start of authenticated pages. -/
theorem named_of_trace (howned : Owned (stageOf place trace) s)
    (hruns : ∀ process, Underway C (jobs process) (own process trace)) {process : ι} {file : φ} {p : κ}
    (hhold : s.handle process = some file) (hentry : s.entries p = some file) :
    ∃ path pages, (jobs process).output = some path ∧ p = place path ∧
      Authenticated C (jobs process) (own process trace) pages ∧ s.content file <+: pages.flatten := by
  obtain ⟨written, torn, part, hstage, hpart, hcontent⟩ := howned.named hhold hentry
  unfold stageOf at hstage
  rcases ((hruns process).order place).2 with hnothing | ⟨pages, hpages, hfills⟩
  · rw [hnothing] at hstage
    cases hstage
  · rw [hstage] at hfills
    obtain ⟨path, houtput, hplace, hprefix⟩ := hfills
    refine ⟨path, pages, houtput, hplace, hpages, ?_⟩
    rw [hcontent]
    exact ((List.prefix_append_right_inj written).2 hpart).trans hprefix

theorem stageOf_kept {process : ι} {path : Path} {pages : List Bytes}
    (h : effects (own process trace) = filled path pages ++ [.sync true]) :
    stageOf place trace process = .holding (place path) pages.flatten [] := by
  unfold stageOf
  rw [h, List.map_append, Policy.after_append, (order_filled place path pages).2]
  rfl

/-- The file of a run that ended well is at its destination, whole. -/
theorem whole_of_ok (howned : Owned (stageOf place trace) s) {process : ι} {path : Path}
    (houtput : (jobs process).output = some path) (hover : Over C (jobs process) (own process trace) (.ok ())) :
    ∃ file, s.handle process = some file ∧ (∀ p, s.entries p = some file ↔ p = place path) ∧
      Whole C (jobs process) (own process trace) (s.content file) := by
  rcases hover.pages with ⟨-, hne⟩ | ⟨config, pages, hconfig, hprovides, -, -, hok⟩
  · exact absurd rfl hne
  obtain ⟨hcounted, heffects⟩ := hok rfl
  have hhas := howned.has process
  rw [stageOf_kept (heffects path houtput)] at hhas
  obtain ⟨file, part, hhold, hnamed, hpart, hcontent⟩ := hhas
  refine ⟨file, hhold, hnamed, config, pages, hconfig, hprovides, hcounted, ?_⟩
  rw [hcontent, List.prefix_nil.1 hpart, List.append_nil]

/-- What a run that ended leaves behind is whole and synced, unless its removal was refused. -/
theorem left_of_over (howned : Owned (stageOf place trace) s) {process : ι} {path : Path}
    (houtput : (jobs process).output = some path) {ended : Except CliError Unit}
    (hover : Over C (jobs process) (own process trace) ended) {file : φ} {p : κ} (hhold : s.handle process = some file)
    (hentry : s.entries p = some file) :
    Whole C (jobs process) (own process trace) (s.content file) ∧ Answered (own process trace) .syncAll (.ok ()) ∨
      ∃ e, Answered (own process trace) (.removeFile path) (.error e) := by
  obtain ⟨written, torn, part, hstage, hpart, hcontent⟩ := howned.named hhold hentry
  rcases hover.pages with ⟨hnothing, -⟩ | ⟨config, pages, hconfig, hprovides, htrail, hsync, -⟩
  · unfold stageOf at hstage
    rw [hnothing] at hstage
    cases hstage
  have htrail := htrail path houtput
  generalize heffects : effects (own process trace) = done at htrail hsync
  cases htrail with
  | untouched =>
    unfold stageOf at hstage
    rw [heffects] at hstage
    cases hstage
  | refused =>
    unfold stageOf at hstage
    rw [heffects] at hstage
    cases hstage
  | kept =>
    left
    rw [stageOf_kept heffects] at hstage
    cases hstage
    refine ⟨⟨config, pages, hconfig, hprovides, hsync (by simp), ?_⟩, answered_of_sync (by simp [heffects])⟩
    rw [hcontent, List.prefix_nil.1 hpart, List.append_nil]
  | removed count failed removed hfailed =>
    cases removed with
    | false => exact .inr (answered_of_remove (by simp [heffects]))
    | true =>
      obtain ⟨_, -, hafter, -⟩ := order_failed place path hfailed
      unfold stageOf at hstage
      rw [heffects, List.map_append, Policy.after_append, hafter] at hstage
      cases hstage

variable [DecidableEq κ] [DecidableEq φ]

theorem owned_of_trace (hstart : ∀ process, start.handle process = none)
    (hruns : ∀ process, Underway C (jobs process) (own process trace)) (htrace : Trace start (acts place trace) s) :
    Owned (stageOf place trace) s := by
  have howned := htrace.owned hstart fun process => by
    rw [own_acts]
    exact ((hruns process).order place).1
  simp only [own_acts] at howned
  exact howned

/-- A step of a process touches nothing but its own file. -/
theorem touches_of_trace (hstart : ∀ process, start.handle process = none)
    {before after : List (Option (ι × Event Host))} {process : ι} {event : Event Host}
    (hruns : ∀ process', Underway C (jobs process') (own process' (before ++ some (process, event) :: after)))
    (hbefore : Trace start (acts place before) s) {done : Effect} (heffect : effect event = some done)
    {s' : State ι κ φ UInt8} (hstep : Step process s (done.act place).1 (done.act place).2 s') : Touches process s s' := by
  have howned : Owned (stageOf place before) s := owned_of_trace hstart
    (fun process' => (hruns process').earlier (by rw [own_append]; exact List.prefix_append ..)) hbefore
  have hobeys := ((hruns process).order place).1
  rw [own_append, effects_append, List.map_append] at hobeys
  have hfirst : effects (own process (some (process, event) :: after)) = done :: effects (own process after) := by
    have hcons : own process (some (process, event) :: after) = event :: own process after := by simp [own]
    rw [hcons]
    simp [effects, heffect]
  rw [hfirst, List.map_cons] at hobeys
  exact howned.touches hobeys.allows hstep

/-- Runs keep apart, while every output path leads to one place throughout. However the steps of any number of runs come
between one another and between the steps of others that leave their files alone, wherever the runs are or were
killed: a step of a run changes no file but the one it created; what it created is at its destination, the start of
pages authenticated in this run; a run that ended well has its file there with all the pages, so that of several runs
to one place at most one does; and what any other run that ended leaves has all the pages and is synced, or its removal
was refused. -/
theorem concurrent_runs_keep_apart (hstart : ∀ process, start.handle process = none)
    (hruns : ∀ process, Underway C (jobs process) (own process trace)) (htrace : Trace start (acts place trace) s) :
    (∀ before process event after done s₁ s₂, trace = before ++ some (process, event) :: after →
      Trace start (acts place before) s₁ → effect event = some done →
      Step process s₁ (done.act place).1 (done.act place).2 s₂ → Touches process s₁ s₂) ∧
    (∀ process file p, s.handle process = some file → s.entries p = some file →
      ∃ path pages, (jobs process).output = some path ∧ p = place path ∧
        Authenticated C (jobs process) (own process trace) pages ∧ s.content file <+: pages.flatten) ∧
    (∀ process path, (jobs process).output = some path → Over C (jobs process) (own process trace) (.ok ()) →
      ∃ file, s.handle process = some file ∧ (∀ p, s.entries p = some file ↔ p = place path) ∧
        Whole C (jobs process) (own process trace) (s.content file)) ∧
    (∀ a b path path', a ≠ b → (jobs a).output = some path → (jobs b).output = some path' →
      Over C (jobs a) (own a trace) (.ok ()) → Over C (jobs b) (own b trace) (.ok ()) → place path ≠ place path') ∧
    (∀ process path ended file p, (jobs process).output = some path →
      Over C (jobs process) (own process trace) ended → s.handle process = some file → s.entries p = some file →
      Whole C (jobs process) (own process trace) (s.content file) ∧ Answered (own process trace) .syncAll (.ok ()) ∨
        ∃ e, Answered (own process trace) (.removeFile path) (.error e)) := by
  have howned := owned_of_trace hstart hruns htrace
  refine ⟨?_, fun _ _ _ hhold hentry => named_of_trace howned hruns hhold hentry, fun _ _ => whole_of_ok howned, ?_,
    fun _ _ _ _ _ houtput hover hhold hentry => left_of_over howned houtput hover hhold hentry⟩
  · rintro before process event after done s₁ s₂ rfl hbefore heffect hstep
    exact touches_of_trace hstart hruns hbefore heffect hstep
  · intro a b path path' hne houtput houtput' hover hover' hsame
    obtain ⟨file, hhold, hnamed, -⟩ := whole_of_ok howned houtput hover
    obtain ⟨file', hhold', hnamed', -⟩ := whole_of_ok howned houtput' hover'
    have hentry := (hnamed (place path)).2 rfl
    rw [(hnamed' (place path)).2 hsame] at hentry
    cases hentry
    exact hne (howned.apart hhold hhold')

end Together

/-- A process that has its file can write pages to it and sync it. -/
theorem exists_trace_filled {ι κ φ : Type} [DecidableEq ι] [DecidableEq κ] [DecidableEq φ] (place : Path → κ)
    {start s : State ι κ φ UInt8} {acts : List (Option (ι × Event (Files κ UInt8)))} {process : ι} {file : φ}
    (htrace : Trace start acts s) (hhold : s.handle process = some file) (pages : List Bytes) : ∃ s', s'.handle = s.handle ∧
      Trace start (acts ++ (pages.map (Effect.write · true) ++ [Effect.sync true]).map fun effect =>
        some (process, effect.act place)) s' := by
  have hwritten : ∃ s', s'.handle = s.handle ∧ Trace start (acts ++ (pages.map (Effect.write · true)).map fun effect =>
      some (process, effect.act place)) s' := by
    induction pages using List.reverseRecOn with
    | nil => exact ⟨s, rfl, by simpa using htrace⟩
    | append_singleton pages page ih =>
      obtain ⟨s', hhandle, htrace'⟩ := ih
      have hhold' : s'.handle process = some file := hhandle ▸ hhold
      have hstep : Step process s' (.write page) true (s'.append file page) := .written hhold'
      rw [List.map_append, List.map_append, ← List.append_assoc]
      exact ⟨s'.append file page, hhandle, htrace'.step hstep⟩
  obtain ⟨s', hhandle, htrace'⟩ := hwritten
  have hstep : Step process s' .sync true s' := .synced
  rw [List.map_append, ← List.append_assoc]
  exact ⟨s', hhandle, htrace'.step hstep⟩

/-! ## The sample exported twice at once -/

/-- Each process has an output of its own. -/
def sampleOutputs (process : Bool) : Path := if process then sampleOutput else companion samplePath sampleOutput.bytes

def sampleJobs (process : Bool) : Job := ⟨sampleCipher, none, false, samplePath, some (sampleOutputs process)⟩

/-- Two processes, and no file yet. -/
def nothingYet : State Bool Path Bool UInt8 := ⟨fun _ => none, fun _ => [], fun _ => none⟩

/-- The events of one process in a row. -/
def row (process : Bool) (events : List (Event Host)) : List (Option (Bool × Event Host)) :=
  events.map fun event => some (process, event)

/-- The processes take turns, each with a first part and a later one. -/
def turns (first later : Bool → List (Event Host)) : List (Option (Bool × Event Host)) :=
  row true (first true) ++ row false (first false) ++ row true (later true) ++ row false (later false)

theorem own_row_self (process : Bool) (events : List (Event Host)) : own process (row process events) = events := by
  simp [own, row, List.filterMap_map]

theorem own_row_other {process other : Bool} (h : other ≠ process) (events : List (Event Host)) :
    own process (row other events) = [] := by
  simp [own, row, List.filterMap_map, h]

theorem own_turns (first later : Bool → List (Event Host)) (process : Bool) :
    own process (turns first later) = first process ++ later process := by
  unfold turns
  cases process
  · simp [own_row_self, own_row_other (show true ≠ false by decide)]
  · simp [own_row_self, own_row_other (show false ≠ true by decide)]

theorem acts_row (process : Bool) (events : List (Event Host)) :
    acts id (row process events) = (effects events).map fun effect => some (process, effect.act id) := by
  unfold row acts effects
  rw [List.filterMap_map, List.map_filterMap]
  rfl

/-- Up to the first effect, and on from there. -/
theorem exists_first {events : List (Event Host)} {done : Effect} {rest : List Effect} (h : effects events = done :: rest) :
    ∃ first later, events = first ++ later ∧ effects first = [done] ∧ effects later = rest := by
  obtain ⟨before, event, later, rfl, hbefore, hevent, hlater⟩ := List.filterMap_eq_cons_iff.1 h
  refine ⟨before ++ [event], later, by simp, ?_, hlater⟩
  have hnone : effects before = [] := List.filterMap_eq_nil_iff.2 hbefore
  rw [effects_append, hnone, effects_singleton, hevent]
  rfl

/-- Both create their files before either fills its own. -/
theorem exists_trace_turns {first later : Bool → List (Event Host)} {pages : Bool → List Bytes}
    (hfirst : ∀ process, effects (first process) = [.create (sampleOutputs process) true])
    (hlater : ∀ process, effects (later process) = (pages process).map (.write · true) ++ [.sync true]) :
    ∃ s, Trace nothingYet (acts id (turns first later)) s := by
  have hfresh : ∀ file, nothingYet.Fresh file := fun file => ⟨by rintro place ⟨⟩, by rintro process ⟨⟩⟩
  have hone : Trace nothingYet (acts id (row true (first true))) (nothingYet.create true (sampleOutputs true) true) := by
    rw [acts_row, hfirst]
    exact .step .start (.created rfl (hfresh true))
  have hfree : (nothingYet.create true (sampleOutputs true) true).entries (sampleOutputs false) = none :=
    nothingYet.create_entries_of_ne (by decide)
  have hboth : Trace nothingYet (acts id (row true (first true) ++ row false (first false)))
      ((nothingYet.create true (sampleOutputs true) true).create false (sampleOutputs false) false) := by
    rw [acts_append, acts_row false, hfirst]
    exact .step hone (.created hfree ((hfresh false).create (by decide)))
  have hhold : ((nothingYet.create true (sampleOutputs true) true).create false (sampleOutputs false) false).handle true =
      some true := by
    rw [State.create_handle_of_ne _ (by decide), State.create_handle]
  obtain ⟨s, hhandle, hfilled⟩ := exists_trace_filled id hboth hhold (pages true)
  have hhold' : s.handle false = some false := by
    rw [hhandle, State.create_handle]
  obtain ⟨s', -, hdone⟩ := exists_trace_filled id hfilled hhold' (pages false)
  refine ⟨s', ?_⟩
  unfold turns
  rw [acts_append, acts_append, acts_row true (later true), acts_row false (later false), hlater, hlater]
  exact hdone

/-- The two exports at once: both end well, and each has its own file, whole. -/
theorem concurrent_runs_keep_apart_sample : ∃ (first later : Bool → List (Event Host)) (s : State Bool Path Bool UInt8),
    (∀ process, effects (first process) = [.create (sampleOutputs process) true]) ∧
    Trace nothingYet (acts id (turns first later)) s ∧ ∀ process,
      Over sample (sampleJobs process) (own process (turns first later)) (.ok ()) ∧ ∃ file, s.handle process = some file ∧
        (∀ p, s.entries p = some file ↔ p = sampleOutputs process) ∧
        Whole sample (sampleJobs process) (own process (turns first later)) (s.content file) := by
  have hexport : ∀ process, ∃ events, Over sample (sampleJobs process) events (.ok ()) := by
    intro process
    obtain ⟨result, s', hresult, hx⟩ := exportCommand_computes sample (.of samplePage) (fun _ => none)
      { sampleExport with outputPath := sampleOutputs process } (s := .start (.of samplePage)) rfl rfl
    obtain ⟨events, hrun⟩ := hx []
    have hsame : Cli.exportCommand sample { World.of samplePage with stdout := none }
        { sampleExport with outputPath := sampleOutputs process } = some (.ok (), some (.file samplePlain)) :=
      exportCommand_sample (sampleOutputs process)
    obtain rfl : .ok () = result := by simpa using congrArg (Option.map Prod.fst) (hsame.symm.trans hresult)
    exact ⟨events, _, _, _, _, hrun⟩
  have hparts : ∀ process, ∃ first later, Over sample (sampleJobs process) (first ++ later) (.ok ()) ∧
      effects first = [.create (sampleOutputs process) true] ∧
      ∃ pages : List Bytes, effects later = pages.map (.write · true) ++ [.sync true] := by
    intro process
    obtain ⟨events, hover⟩ := hexport process
    rcases hover.pages with ⟨-, hne⟩ | ⟨config, pages, -, -, -, -, hok⟩
    · exact absurd rfl hne
    obtain ⟨first, later, rfl, hfirst, hlater⟩ := exists_first ((hok rfl).2 (sampleOutputs process) rfl)
    exact ⟨first, later, hover, hfirst, pages, hlater⟩
  -- either run in two turns, its `create_new` and the rest
  choose first later hover hfirst pages hlater using hparts
  obtain ⟨s, htrace⟩ := exists_trace_turns hfirst hlater
  have hover' : ∀ process, Over sample (sampleJobs process) (own process (turns first later)) (.ok ()) := by
    intro process
    rw [own_turns]
    exact hover process
  have hruns : ∀ process, Underway sample (sampleJobs process) (own process (turns first later)) := by
    intro process
    obtain ⟨σ, env, s, s', hrun⟩ := hover' process
    exact ⟨σ, env, s, s', _, _, hrun, List.prefix_rfl⟩
  obtain ⟨-, -, hwhole, -⟩ := concurrent_runs_keep_apart (fun _ => rfl) hruns htrace
  exact ⟨first, later, s, hfirst, htrace, fun process => ⟨hover' process, hwhole process _ rfl (hover' process)⟩⟩

end Veilite.Cli.Stepwise
