/-
`inspect`: what it may look at and say in any environment, whatever that answers from one call to the next; and, where
the files hold still, what its report tells about the commands that follow.
-/
import Veilite.Cli.History
import Veilite.Cli.Preservation

namespace Veilite.Cli.Stepwise

open Buffer Veilite.Core Turso Interact

/-! ## The rules -/

/-- A line that was printed. -/
def printedLine : Event Host → Option Message
  | ⟨.print line, .ok _⟩ => some line
  | _ => none

def printed (events : List (Event Host)) : List Message := events.filterMap printedLine

/-- The call did not get what it was made for. That there is no entry is an answer. -/
def Failed : Event Host → Prop
  | ⟨.symlinkMetadata _, .error e⟩ => e.kind ≠ .notFound
  | ⟨.metadata _, .error _⟩ | ⟨.canonicalize _, .error _⟩ | ⟨.print _, .error _⟩ => True
  | _ => False

/-- How the report names what a look beside the input came to. -/
def presenceName : Bool → String
  | true => "present"
  | false => "absent"

section Rules

variable (config : CipherConfig) (args : InspectArgs)

/-- The whole report. -/
def report (size : Nat) (wal journal : Bool) : List Message :=
  inspectReport args config size ++ [[.text s!"WAL: {presenceName wal}"], [.text s!"journal: {presenceName journal}"]]

/-- How many lines come before those about companions. -/
def reportHead : Nat := (inspectReport args config 0).length

variable (events : List (Event Host))

/-- The input was found to be a regular file of whole pages, and to resolve. -/
structure Surveyed (size : Nat) (resolved : Path) : Prop where
  regular : Regular events args.inputPath size
  pages : config.pageSize ≤ size ∧ config.pageSize ∣ size
  real : Answered events (.canonicalize args.inputPath) (.ok resolved)

/-- An entry with the suffix was found beside the input or what it resolves to; or none was, beside either. -/
def Shows (resolved : Path) (suffix : Bytes) : Bool → Prop
  | true => ∃ base ∈ [args.inputPath, resolved], ∃ metadata,
      Answered events (.symlinkMetadata (companion base suffix)) (.ok metadata)
  | false => ∀ base ∈ [args.inputPath, resolved], Vacant events (companion base suffix)

/-- The lines are the start of the report on what was found; of the companions, as far as the lines get. -/
def Entitles (lines : List Message) : Prop :=
  ∃ size resolved wal journal, Surveyed config args events size resolved ∧ lines <+: report config args size wal journal ∧
    (reportHead config args < lines.length → Shows args events resolved walSuffix wal) ∧
    (reportHead config args + 1 < lines.length → Shows args events resolved journalSuffix journal)

/-- After these events the call may be made: the input is looked at first, then resolved; a companion is looked for when
its line is due; and a line is printed when what was found entitles to it. After a failure nothing is. -/
def surveys (events : List (Event Host)) (call : Call) : Prop :=
  (∀ event ∈ events, ¬ Failed event) ∧ match call with
  | .metadata path => path = args.inputPath ∧ events = []
  | .canonicalize path => path = args.inputPath ∧ printed events = [] ∧ ∃ size, Regular events args.inputPath size ∧
      config.pageSize ≤ size ∧ config.pageSize ∣ size
  | .symlinkMetadata path => ∃ size resolved, Surveyed config args events size resolved ∧ ∃ base ∈ [args.inputPath, resolved],
      path = companion base walSuffix ∧ (printed events).length = reportHead config args ∨
      path = companion base journalSuffix ∧ (printed events).length = reportHead config args + 1
  | .print line => Entitles config args events (printed events ++ [line])
  | _ => False

def surveyPolicy : Policy Host (List (Event Host)) := .history (surveys config args)

theorem after_surveyPolicy : (surveyPolicy config args).after [] events = events :=
  (Policy.after_history (I := Host) (surveys config args) [] events).trans (List.nil_append events)

end Rules

/-! ## Knowledge only grows -/

section Growth

variable {config : CipherConfig} {args : InspectArgs} {events later : List (Event Host)}

@[simp] theorem printed_append (before events : List (Event Host)) : printed (before ++ events) = printed before ++ printed events :=
  List.filterMap_append

theorem length_inspectReport (size : Nat) : (inspectReport args config size).length = reportHead config args := by
  unfold reportHead inspectReport
  cases args.cipher.preset <;> rfl

theorem Answered.mono (hsub : events ⊆ later) {call : Call} {reply : call.Reply} (h : Answered events call reply) :
    Answered later call reply := hsub h

theorem Vacant.mono (hsub : events ⊆ later) {path : Path} (h : Vacant events path) : Vacant later path := by
  obtain ⟨e, hanswered, hkind⟩ := h
  exact ⟨e, hanswered.mono hsub, hkind⟩

theorem Surveyed.mono (hsub : events ⊆ later) {size : Nat} {resolved : Path} (h : Surveyed config args events size resolved) :
    Surveyed config args later size resolved := by
  obtain ⟨metadata, hanswered, hfile⟩ := h.regular
  exact ⟨⟨metadata, hanswered.mono hsub, hfile⟩, h.pages, h.real.mono hsub⟩

theorem Shows.mono (hsub : events ⊆ later) {resolved : Path} {suffix : Bytes} {present : Bool}
    (h : Shows args events resolved suffix present) : Shows args later resolved suffix present := by
  cases present with
  | true =>
    obtain ⟨base, hbase, metadata, hanswered⟩ := h
    exact ⟨base, hbase, metadata, hanswered.mono hsub⟩
  | false => exact fun base hbase => (h base hbase).mono hsub

end Growth

/-! ## Compliance -/

section Compliance

variable (config : CipherConfig) (args : InspectArgs) {σ : Type} (env : Environment Host σ)

/-- `inspect` that failed has not printed all of its report. -/
def Short (events : List (Event Host)) : Prop := (printed events).length < reportHead config args + 2

/-- Nothing has failed, the input was surveyed, and these lines are out. -/
structure Standing (events : List (Event Host)) (size : Nat) (resolved : Path) (lines : List Message) : Prop where
  going : ∀ event ∈ events, ¬ Failed event
  surveyed : Surveyed config args events size resolved
  printed : printed events = lines

variable {config args}

theorem Standing.printed_append {events : List (Event Host)} {size : Nat} {resolved : Path} {lines : List Message}
    (h : Standing config args events size resolved lines) (event : Event Host) :
    Stepwise.printed (events ++ [event]) = lines ++ (printedLine event).toList := by
  rw [Stepwise.printed_append, h.printed]
  unfold Stepwise.printed
  rw [List.filterMap_cons, List.filterMap_nil]
  cases printedLine event <;> rfl

/-- A call that failed leaves the report short. -/
theorem Standing.short {events : List (Event Host)} {size : Nat} {resolved : Path} {lines : List Message}
    (h : Standing config args events size resolved lines) (hshort : lines.length < reportHead config args + 2)
    {event : Event Host} (hevent : printedLine event = none) : Short config args (events ++ [event]) := by
  unfold Short
  rw [h.printed_append, hevent]
  simpa using hshort

/-- While nothing is printed the report is short. -/
theorem short_of_quiet {events : List (Event Host)} (h : ∀ event ∈ events, printedLine event = none) : Short config args events := by
  unfold Short printed
  rw [List.filterMap_eq_nil_iff.2 h]
  simp

theorem going_append {events : List (Event Host)} {event : Event Host} (h : ∀ event ∈ events, ¬ Failed event)
    (hevent : ¬ Failed event) : ∀ other ∈ events ++ [event], ¬ Failed other := by
  simp only [List.mem_append, List.mem_singleton]
  rintro other (hmem | rfl)
  · exact h other hmem
  · exact hevent

theorem print_surveys {events : List (Event Host)} {size : Nat} {resolved : Path} {lines : List Message} {line : Message}
    (h : Standing config args events size resolved lines) (hentitled : Entitles config args events (lines ++ [line]))
    (hshort : lines.length < reportHead config args + 2) (s : σ) :
    Ensures (surveyPolicy config args) (print env line) s events (Finishes (fun _ events' =>
      events ⊆ events' ∧ Standing config args events' size resolved (lines ++ [line])) (Short config args)) := by
  unfold print
  refine ensures_orThrow (ensures_ask ⟨h.going, by rw [h.printed]; exact hentitled⟩ ?_)
  generalize env (Call.print line) s = answered
  obtain ⟨e | _, s'⟩ := answered
  · exact finishes_error.2 (h.short hshort rfl)
  · exact finishes_ok.2 ⟨List.subset_append_left .., going_append h.going id, h.surveyed.mono (List.subset_append_left ..),
      h.printed_append _⟩

theorem companionExists_surveys {events : List (Event Host)} {size : Nat} {resolved : Path} {lines : List Message}
    {path : Path} (h : Standing config args events size resolved lines) (hallowed : surveys config args events (.symlinkMetadata path))
    (hshort : lines.length < reportHead config args + 2) (s : σ) :
    Ensures (surveyPolicy config args) (companionExists env path) s events (Finishes (fun present events' =>
      events ⊆ events' ∧ Standing config args events' size resolved lines ∧
        (present = true → ∃ metadata, Answered events' (.symlinkMetadata path) (.ok metadata)) ∧
        (present = false → Vacant events' path)) (Short config args)) := by
  unfold companionExists
  refine ensures_bind (ensures_ask hallowed ?_)
  generalize env (Call.symlinkMetadata path) s = answered
  obtain ⟨e | metadata, s'⟩ := answered
  · rw [then_ok]
    by_cases hkind : e.kind = .notFound
    · simp only [hkind, if_true]
      exact ensures_pure (finishes_ok.2 ⟨List.subset_append_left .., ⟨going_append h.going fun hfailed => hfailed hkind,
        h.surveyed.mono (List.subset_append_left ..), (h.printed_append _).trans (by simp [printedLine])⟩, by simp,
        fun _ => ⟨e, answered_last, hkind⟩⟩)
    · simp only [hkind, if_false]
      exact ensures_throw (finishes_error.2 (h.short hshort rfl))
  · exact then_ok.2 (ensures_pure (finishes_ok.2 ⟨List.subset_append_left .., ⟨going_append h.going id,
      h.surveyed.mono (List.subset_append_left ..), (h.printed_append _).trans (by simp [printedLine])⟩,
      fun _ => ⟨metadata, answered_last⟩, by simp⟩))

/-- Looking for a companion whose line is due. -/
theorem presence_surveys {events : List (Event Host)} {size : Nat} {resolved : Path} {lines : List Message} {suffix : Bytes}
    (h : Standing config args events size resolved lines)
    (hdue : suffix = walSuffix ∧ lines.length = reportHead config args ∨
      suffix = journalSuffix ∧ lines.length = reportHead config args + 1) (s : σ) :
    Ensures (surveyPolicy config args) (presence env args.inputPath resolved suffix) s events
      (Finishes (fun name events' => ∃ present, name = presenceName present ∧ events ⊆ events' ∧
        Standing config args events' size resolved lines ∧ Shows args events' resolved suffix present) (Short config args)) := by
  have hshort : lines.length < reportHead config args + 2 := by omega
  have hallowed : ∀ {events'}, Standing config args events' size resolved lines → ∀ base ∈ [args.inputPath, resolved],
      surveys config args events' (.symlinkMetadata (companion base suffix)) := by
    intro events' h' base hbase
    refine ⟨h'.going, size, resolved, h'.surveyed, base, hbase, ?_⟩
    rw [h'.printed]
    exact hdue.imp (fun hwal => ⟨by rw [hwal.1], hwal.2⟩) fun hjournal => ⟨by rw [hjournal.1], hjournal.2⟩
  unfold presence
  refine ensures_bind_finishes (companionExists_surveys env h (hallowed h _ (by simp)) hshort s) fun present s' events' h' => ?_
  obtain ⟨hsub, hstanding, hfound, hvacant⟩ := h'
  cases present with
  | true =>
    obtain ⟨metadata, hanswered⟩ := hfound rfl
    exact ensures_pure (finishes_ok.2 ⟨true, rfl, hsub, hstanding, _, by simp, metadata, hanswered⟩)
  | false =>
    have hgiven := hvacant rfl
    refine ensures_bind_finishes (companionExists_surveys env hstanding (hallowed hstanding _ (by simp)) hshort s')
      fun present s'' events'' h'' => ?_
    obtain ⟨hsub', hstanding', hfound', hvacant'⟩ := h''
    cases present with
    | true =>
      obtain ⟨metadata, hanswered⟩ := hfound' rfl
      exact ensures_pure (finishes_ok.2 ⟨true, rfl, fun _ hmem => hsub' (hsub hmem), hstanding', _, by simp, metadata, hanswered⟩)
    | false =>
      refine ensures_pure (finishes_ok.2 ⟨false, rfl, fun _ hmem => hsub' (hsub hmem), hstanding', ?_⟩)
      rintro base hbase
      rcases List.mem_pair.1 hbase with rfl | rfl
      · exact hgiven.mono hsub'
      · exact hvacant' rfl

/-- The lines before those about companions. -/
theorem entitles_head {events : List (Event Host)} {size : Nat} {resolved : Path} {lines : List Message}
    (h : Surveyed config args events size resolved) (hlines : lines <+: inspectReport args config size) :
    Entitles config args events lines := by
  have hlen := hlines.length_le
  rw [length_inspectReport] at hlen
  exact ⟨size, resolved, false, false, h, hlines.trans (List.prefix_append ..), by omega, by omega⟩

theorem inspect_surveys (hconfig : args.cipher.config = .ok config) (s : σ) :
    Ensures (surveyPolicy config args) (inspect env args) s [] (Finishes (fun _ events =>
      Entitles config args events (printed events) ∧ (printed events).length = reportHead config args + 2)
      (Short config args)) := by
  unfold inspect
  refine ensures_bind (ensures_lift ?_)
  rw [hconfig, then_ok]
  refine ensures_bind (ensures_orThrow (ensures_ask ⟨by simp, rfl, rfl⟩ ?_))
  generalize env (Call.metadata args.inputPath) s = answered
  obtain ⟨e | metadata, s⟩ := answered
  · exact then_error.2 (finishes_error.2 (short_of_quiet (by simp [surveyPolicy, Policy.history, printedLine])))
  have hquiet : Short config args [(⟨.metadata args.inputPath, .ok metadata⟩ : Event Host)] :=
    short_of_quiet (by simp [printedLine])
  refine then_ok.2 (ensures_bind (ensures_refuse (fun _ => then_error.2 (finishes_error.2 hquiet)) fun hfile => ?_))
  refine then_ok.2 (ensures_bind (ensures_lift ?_))
  rcases hvalid : validateEncryptedFileSize metadata.len config.pageSize with e | _
  · exact then_error.2 (finishes_error.2 hquiet)
  have hpages : config.pageSize ≤ metadata.len ∧ config.pageSize ∣ metadata.len := by
    unfold validateEncryptedFileSize at hvalid
    split at hvalid
    · cases hvalid
    · split at hvalid
      · cases hvalid
      · exact ⟨by omega, Nat.dvd_of_mod_eq_zero (not_not.1 ‹_›)⟩
  have hregular : Regular [(⟨.metadata args.inputPath, .ok metadata⟩ : Event Host)] args.inputPath metadata.len :=
    ⟨metadata, by simp [Answered], not_not.1 hfile, rfl⟩
  refine then_ok.2 (ensures_bind (ensures_orThrow (ensures_ask ⟨by simp [Failed, surveyPolicy, Policy.history], rfl, rfl, _, hregular, hpages⟩ ?_)))
  generalize env (Call.canonicalize args.inputPath) s = answered
  obtain ⟨e | resolved, s⟩ := answered
  · exact then_error.2 (finishes_error.2 (short_of_quiet (by simp [surveyPolicy, Policy.history, printedLine])))
  refine then_ok.2 ?_
  have hsurveyed : Standing config args [(⟨.metadata args.inputPath, .ok metadata⟩ : Event Host),
      ⟨.canonicalize args.inputPath, .ok resolved⟩] metadata.len resolved [] :=
    ⟨by simp [Failed], ⟨⟨metadata, by simp [Answered], not_not.1 hfile, rfl⟩, hpages, by simp [Answered]⟩, rfl⟩
  -- the lines that need no companion
  have hhead : ∀ s, Ensures (surveyPolicy config args)
      ((inspectReport args config metadata.len).foldlM (fun _ line => print env line) ()) s
      [(⟨.metadata args.inputPath, .ok metadata⟩ : Event Host), ⟨.canonicalize args.inputPath, .ok resolved⟩]
      (Finishes (fun _ events => Standing config args events metadata.len resolved (inspectReport args config metadata.len))
        (Short config args)) := by
    intro s
    refine ensures_foldlM (fun done _ _ events => Standing config args events metadata.len resolved done) hsurveyed
      (fun done line rest _ s events hsplit h => ?_) fun _ _ _ h => finishes_ok.2 h
    have hlen := congrArg List.length hsplit
    rw [length_inspectReport, List.length_append, List.length_cons] at hlen
    have hentitled : Entitles config args events (done ++ [line]) :=
      entitles_head h.surveyed ⟨rest, by rw [hsplit, List.append_assoc]; rfl⟩
    refine ensures_mono (print_surveys env h hentitled (by omega) s) fun ended s events' h' => ?_
    exact ⟨fun _ hok => (h'.1 _ hok).2, fun e herror => finishes_error.2 (h'.2 e herror)⟩
  refine ensures_bind_finishes (hhead s) fun _ s events h => ?_
  have hlen : (inspectReport args config metadata.len).length = reportHead config args := length_inspectReport metadata.len
  refine ensures_bind_finishes (ensures_mapError_finishes (presence_surveys env h (.inl ⟨rfl, hlen⟩) s))
    fun name s events h' => ?_
  obtain ⟨wal, rfl, -, hstanding, hwal⟩ := h'
  have hentitled : Entitles config args events (inspectReport args config metadata.len ++ [[.text s!"WAL: {presenceName wal}"]]) :=
    ⟨metadata.len, resolved, wal, false, hstanding.surveyed, by simp [report], fun _ => hwal, by simp [hlen]⟩
  refine ensures_bind_finishes (print_surveys env hstanding hentitled (by omega) s) fun _ s events' h' => ?_
  obtain ⟨hsub, hstanding⟩ := h'
  refine ensures_bind_finishes (ensures_mapError_finishes (presence_surveys env hstanding (.inr ⟨rfl, by simp [hlen]⟩) s))
    fun name s events'' h' => ?_
  obtain ⟨journal, rfl, hsub', hstanding, hjournal⟩ := h'
  have hwhole : Entitles config args events'' (inspectReport args config metadata.len ++
      [[.text s!"WAL: {presenceName wal}"]] ++ [[.text s!"journal: {presenceName journal}"]]) :=
    ⟨metadata.len, resolved, wal, journal, hstanding.surveyed, by simp [report],
      fun _ => hwal.mono fun _ hmem => hsub' (hsub hmem), fun _ => hjournal⟩
  refine ensures_mono (print_surveys env hstanding hwhole (by simp [hlen]) s) fun ended s events3 h' => ?_
  rcases ended with e | _
  · exact finishes_error.2 (finishes_error.1 h')
  · obtain ⟨hsub'', hstanding'⟩ := finishes_ok.1 h'
    refine finishes_ok.2 ?_
    rw [hstanding'.printed]
    refine ⟨⟨metadata.len, resolved, wal, journal, hstanding'.surveyed, by simp [report], fun _ => ?_, fun _ => ?_⟩, by simp [hlen]⟩
    · exact hwal.mono fun _ hmem => hsub'' (hsub' (hsub hmem))
    · exact hjournal.mono hsub''

/-- `inspect` in any environment: it returns; it only looks at the input and beside it, and prints; every call follows
from what was answered before it, none follows a failure; and it ends well exactly when the whole report is out, each
companion as it was seen. Without a configuration it makes no call. -/
theorem inspect_reports_findings (args : InspectArgs) (s : σ) : ∃ ended s' events,
    inspect env args (s, []) = some (ended, (s', events)) ∧
    (∀ e, args.cipher.config = .error e → ended = .error e ∧ events = []) ∧
    ∀ config, args.cipher.config = .ok config →
      (∀ before event rest, events = before ++ event :: rest → surveys config args before event.1) ∧
      (ended = .ok () ↔ ∃ size resolved wal journal, Surveyed config args events size resolved ∧
        Shows args events resolved walSuffix wal ∧ Shows args events resolved journalSuffix journal ∧
        printed events = report config args size wal journal) := by
  rcases hconfig : args.cipher.config with e | config
  · refine ⟨.error e, s, [], ?_, fun e' he' => ?_, by rintro config ⟨⟩⟩
    · unfold inspect
      exact bind_of_error (congrArg (fun result => some (result, (s, []))) hconfig)
    · cases he'
      exact ⟨rfl, rfl⟩
  obtain ⟨ended, s', events, hrun, hobeys, hend⟩ := inspect_surveys env hconfig s []
  refine ⟨ended, s', events, hrun, by rintro e ⟨⟩, fun config' h => ?_⟩
  cases h
  rw [after_surveyPolicy] at hend
  refine ⟨?_, ?_⟩
  · rintro before event rest rfl
    have hallowed := Policy.Obeys.allows hobeys
    rwa [after_surveyPolicy] at hallowed
  have hreport : ∀ size wal journal, (report config args size wal journal).length = reportHead config args + 2 := by
    intro size wal journal
    rw [report, List.length_append, length_inspectReport]
    rfl
  rcases ended with e | _
  · -- the report is short
    have hshort := finishes_error.1 hend
    refine ⟨by rintro ⟨⟩, ?_⟩
    rintro ⟨size, resolved, wal, journal, -, -, -, hprinted⟩
    unfold Short at hshort
    rw [hprinted, hreport] at hshort
    exact absurd hshort (Nat.lt_irrefl _)
  · obtain ⟨⟨size, resolved, wal, journal, hsurveyed, hprefix, hwal, hjournal⟩, hlen⟩ := finishes_ok.1 hend
    refine iff_of_true rfl ⟨size, resolved, wal, journal, hsurveyed, hwal (by omega), hjournal (by omega), ?_⟩
    exact hprefix.eq_of_length (by rw [hlen, hreport])

end Compliance

end Veilite.Cli.Stepwise

namespace Veilite.Cli

open Buffer Veilite.Core Traverse Turso Stepwise

/-! ## What a report foretells -/

section Prediction

variable {fs : FsView} {args : InspectArgs}

/-- A companion line says of both paths what the other commands' checks find there. -/
theorem presence_eq_ok_iff {path resolved : Path} {suffix : Bytes} {name : String}
    (h : Cli.presence fs path resolved suffix = .ok name) : ∃ present, name = presenceName present ∧
      (present = false ↔ Absent fs (companion path suffix) ∧ Absent fs (companion resolved suffix)) := by
  have hlookup : ∀ {found path}, Cli.companionExists fs path = .ok found → (found = false ↔ Absent fs path) := by
    intro found path h
    unfold Cli.companionExists at h
    unfold Absent
    rcases hanswer : fs.symlinkMetadata path with e | metadata
    · rw [hanswer] at h
      dsimp only at h
      split at h
      · cases h
        simpa
      · cases h
    · rw [hanswer] at h
      cases h
      simp
  unfold Cli.presence at h
  rcases hgiven : Cli.companionExists fs (companion path suffix) with e | given
  · rw [hgiven] at h
    cases h
  rw [hgiven] at h
  cases given with
  | true =>
    cases h
    exact ⟨true, rfl, by simp, fun h => absurd ((hlookup hgiven).2 h.1) (by simp)⟩
  | false =>
    change (Cli.companionExists fs (companion resolved suffix) >>= fun found => pure (if found then "present" else "absent")) =
      .ok name at h
    obtain ⟨found, hfound, h⟩ := bind_eq_ok_iff.1 h
    cases h
    refine ⟨found, by cases found <;> rfl, ?_⟩
    rw [hlookup hfound]
    exact (and_iff_right ((hlookup hgiven).1 rfl)).symm

/-- Of a source of whole pages, opening can only fail by a read, by the key or for having too many. -/
theorem open_error_of_whole {C : Primitives} {σ E : Type} {source : ReadAt σ E} {config : CipherConfig} {passphrase : Bytes}
    {s : σ} {size : Nat} (hlen : (source.len s).1 = .ok size) (hge : config.pageSize ≤ size) (hdvd : config.pageSize ∣ size)
    {e : ReaderError E} (h : (SqlCipherReader.open C source config passphrase s).1 = .error e) :
    (∃ e', e = .source e') ∨ (∃ e', e = .decrypt e') ∨ e = .tooManyPages (size / config.pageSize) := by
  have hps := config.pageSize_pos
  unfold SqlCipherReader.open at h
  rcases hl : source.len s with ⟨e' | size', s'⟩
  · rw [hl] at hlen
    cases hlen
  rw [hl] at h hlen
  cases hlen
  dsimp only at h
  rw [dif_neg (by omega), dif_neg (by omega), dif_neg (not_not.2 (Nat.mod_eq_zero_of_dvd hdvd))] at h
  split at h
  · split at h
    · cases h
      exact .inl ⟨_, rfl⟩
    · split at h
      · cases h
        exact .inr (.inl ⟨_, rfl⟩)
      · cases h
  · cases h
    exact .inr (.inr rfl)

/-- What `inspect` has found when it begins its report. -/
theorem inspectChecks_eq_ok {found : Inspection} (h : inspectChecks fs args = .ok found) :
    args.cipher.config = .ok found.config ∧
      (∃ metadata, fs.metadata args.inputPath = .ok metadata ∧ metadata.isFile = true ∧ metadata.len = found.fileSize) ∧
      found.config.pageSize ≤ found.fileSize ∧ found.config.pageSize ∣ found.fileSize ∧
      fs.canonicalize args.inputPath = .ok found.resolved := by
  unfold inspectChecks at h
  obtain ⟨config, hconfig, h⟩ := bind_eq_ok_iff.1 h
  obtain ⟨metadata, hmetadata, h⟩ := bind_eq_ok_iff.1 h
  obtain ⟨hfile, h⟩ := guard_eq_ok_iff.1 h
  obtain ⟨_, hvalid, h⟩ := bind_eq_ok_iff.1 h
  obtain ⟨resolved, hresolved, h⟩ := bind_eq_ok_iff.1 h
  cases h
  have hvalid := mapError_eq_ok_iff.1 hvalid
  unfold validateEncryptedFileSize at hvalid
  split at hvalid
  · cases hvalid
  split at hvalid
  · cases hvalid
  exact ⟨hconfig, ⟨metadata, mapError_eq_ok_iff.1 hmetadata, not_not.1 hfile, rfl⟩, by dsimp only; omega,
    Nat.dvd_of_mod_eq_zero (not_not.1 ‹_›), mapError_eq_ok_iff.1 hresolved⟩

/-- Opening a reader fails before the file, or is opening the file that is there. -/
theorem openReader_of_opens (C : Primitives) {world : World} {path resolved : Path} {cipher : CipherArgs}
    (passphraseFile : Option Path) {config : CipherConfig} {source : ReadAt Unit IoError} (hconfig : cipher.config = .ok config)
    (hcanonical : world.fs.canonicalize path = .ok resolved) (hopen : world.fs.openFile resolved = .ok source) :
    (∃ e, Cli.openReader C world path cipher passphraseFile = .error (.io e)) ∨
      ∃ passphrase, Cli.openReader C world path cipher passphraseFile =
        (SqlCipherReader.open C source config passphrase ()).1.mapError .reader := by
  rw [openReader_eq, hconfig]
  rcases hmain : mainPreflight world.fs path with e | target
  · exact .inl ⟨e, rfl⟩
  obtain ⟨-, hcanonical', -⟩ := mainPreflight_eq_ok_iff.1 hmain
  cases hcanonical.symm.trans hcanonical'
  rcases hpassphrase : world.passphrase passphraseFile with e | passphrase
  · exact .inl ⟨e, rfl⟩
  · right
    refine ⟨passphrase, ?_⟩
    simp [Cli.openEncryptedDatabase, Except.mapError, bind, Except.bind, hopen]

end Prediction

/-- A report that got out tells what the other commands meet while the files hold still: the main-only checks pass exactly
when neither companion line says `present`; with `--wal` only a database with a WAL and no journal is taken; and a reader
has the pages the report counts, or could not be opened for its bytes, its key or their number. -/
theorem inspect_predicts_commands {state : FileSystem} {args : InspectArgs} {stdout : Nat → Option IoError}
    (h : Cli.inspect state.view args stdout = .ok ()) :
    ∃ found wal journal, inspectChecks state.view args = .ok found ∧
      Cli.presence state.view args.inputPath found.resolved walSuffix = .ok (presenceName wal) ∧
      Cli.presence state.view args.inputPath found.resolved journalSuffix = .ok (presenceName journal) ∧
      (mainPreflight state.view args.inputPath = .ok found.resolved ↔ wal = false ∧ journal = false) ∧
      (∀ input, WalInput.open state.view args.inputPath = .ok input →
        input.path = found.resolved ∧ wal = true ∧ journal = false) ∧
      ∀ (C : Primitives) (world : World) (passphraseFile : Option Path), world.fs = state.view →
        (∀ reader, Cli.openReader C world args.inputPath args.cipher passphraseFile = .ok reader →
          reader.decryptor.config = found.config ∧ reader.fileSize = found.fileSize ∧
            reader.pageCount = found.fileSize / found.config.pageSize) ∧
        ∀ e, Cli.openReader C world args.inputPath args.cipher passphraseFile = .error (.reader e) →
          (∃ e', e = .source e') ∨ (∃ e', e = .decrypt e') ∨ e = .tooManyPages (found.fileSize / found.config.pageSize) := by
  obtain ⟨found, hchecks, hlines⟩ := bind_eq_ok_iff.1 h
  have hlines := fun e => writeLines_eq_ok (mapError_eq_ok_iff.1 hlines) (e := e)
  -- a printed line has a name to print
  have hline : ∀ {name : Except IoError String} {f : String → Message}, name.map f ∈ inspectLines state.view args found →
      ∃ n, name = .ok n := by
    intro name f hmem
    rcases name with e | n
    · exact absurd hmem (hlines e)
    · exact ⟨n, rfl⟩
  have hwal : ∃ walName, Cli.presence state.view args.inputPath found.resolved walSuffix = .ok walName :=
    hline (f := fun s => [.text s!"WAL: {s}"]) (by simp [inspectLines])
  have hjournal : ∃ journalName, Cli.presence state.view args.inputPath found.resolved journalSuffix = .ok journalName :=
    hline (f := fun s => [.text s!"journal: {s}"]) (by simp [inspectLines])
  obtain ⟨walName, hwalName⟩ := hwal
  obtain ⟨journalName, hjournalName⟩ := hjournal
  obtain ⟨wal, rfl, hwal⟩ := presence_eq_ok_iff hwalName
  obtain ⟨journal, rfl, hjournal⟩ := presence_eq_ok_iff hjournalName
  obtain ⟨hconfig, hfile, hge, hdvd, hcanonical⟩ := inspectChecks_eq_ok hchecks
  obtain ⟨location, content, hresolve, hentry, hsize⟩ := FileSystem.metadata_isFile_iff.1 hfile
  obtain ⟨target, htarget, hresolved⟩ := FileSystem.canonicalize_eq_ok_iff.1 hcanonical
  obtain rfl : location = target := Except.ok.inj (hresolve.symm.trans (FileSystem.resolve_of_canonical htarget))
  refine ⟨found, wal, journal, hchecks, hwalName, hjournalName, ?_, fun input hinput => ?_, fun C world passphraseFile hfs => ?_⟩
  · rw [mainPreflight_eq_ok_iff, hwal, hjournal, and_iff_right_of_imp (a := state.view.canonicalize _ = _) (fun _ => hcanonical)]
    exact ⟨fun h => ⟨⟨h.1.wal, h.2.wal⟩, h.1.journal, h.2.journal⟩, fun h => ⟨⟨h.1.1, h.2.1⟩, ⟨h.1.2, h.2.2⟩⟩⟩
  · obtain ⟨hgiven, hcanonical', hown, -, ⟨metadata, hmetadata, hwalFile, -⟩, -⟩ := walInput_open_eq_ok_iff.1 hinput
    have hpath : input.path = found.resolved := Except.ok.inj (hcanonical'.symm.trans hcanonical)
    rw [hpath] at hown hmetadata
    refine ⟨hpath, ?_, hjournal.2 ⟨hgiven, hown⟩⟩
    -- a WAL that the checks take was there to be seen
    by_contra hwal'
    have habsent := (hwal.1 (by simpa using hwal')).2
    obtain ⟨walLocation, -, hwalResolve, -⟩ := FileSystem.metadata_isFile_iff.1 ⟨metadata, hmetadata, hwalFile, rfl⟩
    obtain ⟨own, hlookup⟩ := FileSystem.symlinkMetadata_of_resolve hwalResolve
    exact habsent.not_ok hlookup
  · -- the reader opens the file that was measured
    have hopen : state.view.openFile found.resolved = .ok (FileSource content) := by
      rw [hresolved]
      show (state.resolve (pathOf location)).map _ = _
      rw [FileSystem.resolve_pathOf_of_canonical htarget]
      simp only [Except.map, hentry]
    rcases openReader_of_opens C passphraseFile hconfig (hfs ▸ hcanonical) (hfs ▸ hopen) with ⟨e, he⟩ | ⟨passphrase, hreader⟩
    · rw [he]
      exact ⟨by rintro reader ⟨⟩, by rintro e' ⟨⟩⟩
    rw [hreader]
    refine ⟨fun reader hok => ?_, fun e herror => ?_⟩
    · obtain ⟨-, -, hlen, salt, -, hdec⟩ := SqlCipherReader.open_eq_ok C
        (Prod.ext (mapError_eq_ok_iff.1 hok) rfl : SqlCipherReader.open C (FileSource content) found.config passphrase () = (.ok reader, ()))
      have hreaderConfig : reader.decryptor.config = found.config := by rw [hdec]
      have hfileSize : reader.fileSize = found.fileSize := (Except.ok.inj hlen).symm.trans hsize
      refine ⟨hreaderConfig, hfileSize, ?_⟩
      rw [← hfileSize, ← reader.fileSize_eq, hreaderConfig, Nat.mul_div_cancel _ found.config.pageSize_pos]
    · rcases hopened : (SqlCipherReader.open C (FileSource content) found.config passphrase ()).1 with e' | reader
      · rw [hopened] at herror
        cases herror
        exact open_error_of_whole (congrArg Except.ok hsize) hge hdvd hopened
      · rw [hopened] at herror
        cases herror

/-- The sample database: the main-only checks will pass. -/
theorem inspect_predicts_commands_sample : ∃ found wal journal,
    inspectChecks sampleState.view ⟨sampleCipher, samplePath⟩ = .ok found ∧
      Cli.presence sampleState.view samplePath found.resolved walSuffix = .ok (presenceName wal) ∧
      Cli.presence sampleState.view samplePath found.resolved journalSuffix = .ok (presenceName journal) ∧
      (mainPreflight sampleState.view samplePath = .ok found.resolved ↔ wal = false ∧ journal = false) := by
  have hchecks : inspectChecks sampleState.view ⟨sampleCipher, samplePath⟩ = .ok ⟨sampleConfig, 1024, samplePath⟩ := by
    have hmetadata : sampleState.view.metadata samplePath = .ok ⟨true, 1024⟩ :=
      length_samplePage ▸ (rfl : sampleState.view.metadata samplePath = .ok ⟨true, samplePage.length⟩)
    have hcanonical : sampleState.view.canonicalize samplePath = .ok samplePath := rfl
    unfold inspectChecks
    simp only [sampleCipher_config, hmetadata, hcanonical]
    rfl
  have hreport : Cli.inspect sampleState.view ⟨sampleCipher, samplePath⟩ (fun _ => none) = .ok () := by
    unfold Cli.inspect
    rw [hchecks]
    rfl
  obtain ⟨found, wal, journal, hfound, hwal, hjournal, hmain, -⟩ := inspect_predicts_commands hreport
  exact ⟨found, wal, journal, hfound, hwal, hjournal, hmain⟩

end Veilite.Cli
