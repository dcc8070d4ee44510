/-
Programs that call an environment, and policies on what they call. The environment answers as it likes, by a
state of its own; a program passes that state and the calls made so far with their answers, and returns, fails
or panics. A policy is an automaton over calls and answers that says which calls are allowed where it stands.
`Ensures` is the total-correctness triple of a program from one state, with a rule for each way to build one;
`Computes` says how it ends in an environment that is known, and `Round` matches its loops with a traversal.
-/
import Veilite.Lib.Traverse

namespace Interact

/-- What can be called, and what a call is answered with. -/
structure Interface where
  Call : Type
  Reply : Call → Type

/-- A call and its answer. -/
abbrev Event (I : Interface) := Sigma I.Reply

/-- What answers the calls: each answer may depend on everything that went before. -/
abbrev Environment (I : Interface) (σ : Type) := (call : I.Call) → σ → I.Reply call × σ

/-- The state of the environment, and the events so far. -/
abbrev Run (I : Interface) (σ : Type) := σ × List (Event I)

/-- A program; `none` is a panic. -/
abbrev Program (I : Interface) (σ ε α : Type) := ExceptT ε (StateT (Run I σ) Option) α

/-! ## Building programs -/

section Programs

variable {I : Interface} {σ ε ε' α β : Type} (env : Environment I σ)

/-- One call, recorded with its answer. -/
def perform (call : I.Call) (run : Run I σ) : I.Reply call × Run I σ :=
  let answered := env call run.1
  (answered.1, (answered.2, run.2 ++ [⟨call, answered.1⟩]))

def ask (call : I.Call) : Program I σ ε (I.Reply call) := fun run =>
  some (.ok (perform env call run).1, (perform env call run).2)

/-- A result that needs no call. -/
def lift (result : Except ε α) : Program I σ ε α := fun run => some (result, run)

/-- A value that a panic may stand in for. -/
def panicking (value : Option α) : Program I σ ε α := fun run => value.map fun a => (.ok a, run)

/-- How a program ends, as a value. -/
def outcome (x : Program I σ ε α) : Program I σ ε' (Except ε α) := fun run =>
  (x run).map fun ended => (.ok ended.1, ended.2)

def mapError (f : ε → ε') (x : Program I σ ε α) : Program I σ ε' α := fun run =>
  (x run).map fun ended => (ended.1.mapError f, ended.2)

/-- A check: the program ends with the error when the condition holds. -/
def refuse (condition : Prop) [Decidable condition] (e : ε) : Program I σ ε Unit :=
  if condition then throw e else pure ()

/-- `x?` on a program that returns a result: its error, converted, ends the caller. -/
def orThrow (f : ε → ε') (x : Program I σ ε' (Except ε α)) : Program I σ ε' α :=
  x >>= fun result => lift (result.mapError f)

/-! How a sequence runs by how its first part ends. -/

theorem bind_of_ok {x : Program I σ ε α} {f : α → Program I σ ε β} {run run' : Run I σ} {a : α}
    (h : x run = some (.ok a, run')) : (x >>= f) run = f a run' := by
  show Option.bind (x run) _ = _
  rw [h]
  rfl

theorem bind_of_error {x : Program I σ ε α} {f : α → Program I σ ε β} {run run' : Run I σ} {e : ε}
    (h : x run = some (.error e, run')) : (x >>= f) run = some (.error e, run') := by
  show Option.bind (x run) _ = _
  rw [h]
  rfl

end Programs

/-! ## Policies -/

/-- An automaton over calls and answers, with the calls it allows in each of its states. -/
structure Policy (I : Interface) (ρ : Type) where
  allows : ρ → I.Call → Prop
  next : ρ → (call : I.Call) → I.Reply call → ρ

namespace Policy

variable {I : Interface} {ρ : Type} (p : Policy I ρ)

/-- Where the policy is after some events. -/
def after (g : ρ) (events : List (Event I)) : ρ := events.foldl (fun g event => p.next g event.1 event.2) g

/-- Every call of the events is allowed where it is made. -/
def Obeys : ρ → List (Event I) → Prop
  | _, [] => True
  | g, event :: events => p.allows g event.1 ∧ Obeys (p.next g event.1 event.2) events

@[simp] theorem after_nil (g : ρ) : p.after g [] = g := rfl

@[simp] theorem after_cons (g : ρ) (event : Event I) (events : List (Event I)) :
    p.after g (event :: events) = p.after (p.next g event.1 event.2) events := rfl

@[simp] theorem after_append (g : ρ) (before events : List (Event I)) :
    p.after g (before ++ events) = p.after (p.after g before) events := List.foldl_append

@[simp] theorem obeys_nil (g : ρ) : p.Obeys g [] := trivial

@[simp] theorem obeys_cons {g : ρ} {event : Event I} {events : List (Event I)} :
    p.Obeys g (event :: events) ↔ p.allows g event.1 ∧ p.Obeys (p.next g event.1 event.2) events := Iff.rfl

@[simp] theorem obeys_append {g : ρ} {before events : List (Event I)} :
    p.Obeys g (before ++ events) ↔ p.Obeys g before ∧ p.Obeys (p.after g before) events := by
  induction before generalizing g with
  | nil => simp
  | cons event before ih => simp [ih, and_assoc]

/-- A call is allowed by what came before it. -/
theorem Obeys.allows {p : Policy I ρ} {g : ρ} {before rest : List (Event I)} {event : Event I}
    (h : p.Obeys g (before ++ event :: rest)) : p.allows (p.after g before) event.1 := by
  simp only [obeys_append, obeys_cons] at h
  exact h.2.1

/-- What holds at the start, with no event, and is kept by every allowed call holds after any events that obey. It
may speak of the events. -/
theorem Obeys.induction {p : Policy I ρ} (Inv : List (Event I) → ρ → Prop) {g : ρ} (hstart : Inv [] g)
    (hstep : ∀ before h call reply, Inv before h → p.allows h call → Inv (before ++ [⟨call, reply⟩]) (p.next h call reply)) :
    ∀ events, p.Obeys g events → Inv events (p.after g events) := by
  intro events
  induction events using List.reverseRecOn with
  | nil => exact fun _ => hstart
  | append_singleton before event ih =>
    intro h
    rw [obeys_append] at h
    rw [after_append]
    exact hstep before _ event.1 event.2 (ih h.1) h.2.1

/-- A policy that judges a call by all the events before it. -/
def history (allows : List (Event I) → I.Call → Prop) : Policy I (List (Event I)) where
  allows := allows
  next events call reply := events ++ [⟨call, reply⟩]

@[simp] theorem after_history (allows : List (Event I) → I.Call → Prop) (before events : List (Event I)) :
    (history allows).after before events = before ++ events := by
  induction events generalizing before with
  | nil => simp
  | cons event events ih =>
    rw [after_cons, ih]
    simp [history]

end Policy

/-! ## Triples -/

section Triples

variable {I : Interface} {σ ρ ε ε' α β : Type} (p : Policy I ρ) {env : Environment I σ}

/-- From the environment's state `s` and the policy's `g`, the program returns, every call it makes is allowed, and
`Q` holds of how it ends and of the two states it leaves. -/
def Ensures (x : Program I σ ε α) (s : σ) (g : ρ) (Q : Except ε α → σ → ρ → Prop) : Prop :=
  ∀ before, ∃ ended s' events, x (s, before) = some (ended, (s', before ++ events)) ∧ p.Obeys g events ∧
    Q ended s' (p.after g events)

variable {p} {s : σ} {g : ρ}

theorem ensures_mono {x : Program I σ ε α} {Q Q' : Except ε α → σ → ρ → Prop} (h : Ensures p x s g Q)
    (hQ : ∀ ended s' g', Q ended s' g' → Q' ended s' g') : Ensures p x s g Q' := by
  intro before
  obtain ⟨ended, s', events, hrun, hobeys, hq⟩ := h before
  exact ⟨ended, s', events, hrun, hobeys, hQ _ _ _ hq⟩

theorem ensures_lift {result : Except ε α} {Q : Except ε α → σ → ρ → Prop} (h : Q result s g) :
    Ensures p (lift result) s g Q :=
  fun before => ⟨result, s, [], by rw [List.append_nil]; rfl, trivial, h⟩

theorem ensures_pure {a : α} {Q : Except ε α → σ → ρ → Prop} (h : Q (.ok a) s g) : Ensures p (pure a) s g Q :=
  ensures_lift h

theorem ensures_throw {e : ε} {Q : Except ε α → σ → ρ → Prop} (h : Q (.error e) s g) : Ensures p (throw e) s g Q :=
  ensures_lift h

theorem ensures_panicking {value : Option α} {a : α} {Q : Except ε α → σ → ρ → Prop} (hvalue : value = some a)
    (h : Q (.ok a) s g) : Ensures p (panicking value) s g Q := by
  subst hvalue
  exact ensures_lift h

/-- A call has to be allowed; its answer is the environment's. -/
theorem ensures_ask {call : I.Call} {Q : Except ε (I.Reply call) → σ → ρ → Prop} (hallowed : p.allows g call)
    (h : Q (.ok (env call s).1) (env call s).2 (p.next g call (env call s).1)) : Ensures p (ask env call) s g Q :=
  fun _ => ⟨_, _, [⟨call, (env call s).1⟩], rfl, ⟨hallowed, trivial⟩, h⟩

theorem ensures_refuse {condition : Prop} [Decidable condition] {e : ε} {Q : Except ε Unit → σ → ρ → Prop}
    (hrefused : condition → Q (.error e) s g) (hpassed : ¬ condition → Q (.ok ()) s g) :
    Ensures p (refuse condition e) s g Q := by
  unfold refuse
  by_cases h : condition
  · rw [if_pos h]
    exact ensures_throw (hrefused h)
  · rw [if_neg h]
    exact ensures_pure (hpassed h)

variable (p) in
/-- What the first part of a sequence has to ensure: an error is the end, a value starts the rest. -/
def Then (f : α → Program I σ ε β) (Q : Except ε β → σ → ρ → Prop) (ended : Except ε α) (s : σ) (g : ρ) : Prop :=
  (∀ e, ended = .error e → Q (.error e) s g) ∧ ∀ a, ended = .ok a → Ensures p (f a) s g Q

@[simp] theorem then_error {f : α → Program I σ ε β} {Q : Except ε β → σ → ρ → Prop} {e : ε} :
    Then p f Q (.error e) s g ↔ Q (.error e) s g := by
  simp [Then]

@[simp] theorem then_ok {f : α → Program I σ ε β} {Q : Except ε β → σ → ρ → Prop} {a : α} :
    Then p f Q (.ok a) s g ↔ Ensures p (f a) s g Q := by
  simp [Then]

theorem ensures_bind {x : Program I σ ε α} {f : α → Program I σ ε β} {Q : Except ε β → σ → ρ → Prop}
    (h : Ensures p x s g (Then p f Q)) : Ensures p (x >>= f) s g Q := by
  intro before
  obtain ⟨ended, s1, events, hrun, hobeys, herror, hok⟩ := h before
  rcases ended with e | a
  · exact ⟨.error e, s1, events, bind_of_error hrun, hobeys, herror e rfl⟩
  · obtain ⟨ended, s2, more, hrun', hobeys', hQ⟩ := hok a rfl (before ++ events)
    refine ⟨ended, s2, events ++ more, ?_, (p.obeys_append).2 ⟨hobeys, hobeys'⟩, ?_⟩
    · rw [bind_of_ok hrun, ← List.append_assoc]
      exact hrun'
    · rw [p.after_append]
      exact hQ

theorem ensures_outcome {x : Program I σ ε α} {Q : Except ε' (Except ε α) → σ → ρ → Prop}
    (h : Ensures p x s g fun ended => Q (.ok ended)) : Ensures p (outcome x) s g Q := by
  intro before
  obtain ⟨ended, s', events, hrun, hobeys, hq⟩ := h before
  exact ⟨.ok ended, s', events, by unfold outcome; rw [hrun]; rfl, hobeys, hq⟩

theorem ensures_mapError {f : ε → ε'} {x : Program I σ ε α} {Q : Except ε' α → σ → ρ → Prop}
    (h : Ensures p x s g fun ended => Q (ended.mapError f)) : Ensures p (mapError f x) s g Q := by
  intro before
  obtain ⟨ended, s', events, hrun, hobeys, hq⟩ := h before
  exact ⟨ended.mapError f, s', events, by unfold mapError; rw [hrun]; rfl, hobeys, hq⟩

theorem ensures_orThrow {f : ε → ε'} {x : Program I σ ε' (Except ε α)} {Q : Except ε' α → σ → ρ → Prop}
    (h : Ensures p x s g fun ended => Q (ended >>= fun result => result.mapError f)) : Ensures p (orThrow f x) s g Q := by
  unfold orThrow
  refine ensures_bind (ensures_mono h fun ended s' g' hended => ?_)
  rcases ended with e | result
  · exact then_error.2 hended
  · exact then_ok.2 (ensures_lift hended)

theorem ensures_foldlM_from {ι β : Type} {f : β → ι → Program I σ ε β} {is : List ι} {Q : Except ε β → σ → ρ → Prop}
    (Inv : List ι → β → σ → ρ → Prop)
    (hstep : ∀ done i rest b s g, is = done ++ i :: rest → Inv done b s g →
      Ensures p (f b i) s g fun ended s' g' => (∀ b', ended = .ok b' → Inv (done ++ [i]) b' s' g') ∧
        ∀ e, ended = .error e → Q (.error e) s' g')
    (hdone : ∀ b s g, Inv is b s g → Q (.ok b) s g) :
    ∀ {done rest : List ι} {b : β} {s : σ} {g : ρ}, is = done ++ rest → Inv done b s g → Ensures p (rest.foldlM f b) s g Q
  | done, [], b, s, g, his, h => by
    rw [List.append_nil] at his
    subst his
    exact ensures_pure (hdone b s g h)
  | done, i :: rest, b, s, g, his, h => by
    rw [List.foldlM_cons]
    refine ensures_bind (ensures_mono (hstep done i rest b s g his h) fun ended s' g' hended => ?_)
    rcases ended with e | b'
    · exact then_error.2 (hended.2 e rfl)
    · exact then_ok.2 (ensures_foldlM_from Inv hstep hdone (by rw [his]; simp) (hended.1 b' rfl))

/-- A fold over a list; the invariant speaks of the items done. -/
theorem ensures_foldlM {ι β : Type} {f : β → ι → Program I σ ε β} {is : List ι} {Q : Except ε β → σ → ρ → Prop}
    (Inv : List ι → β → σ → ρ → Prop) {b : β} (hstart : Inv [] b s g)
    (hstep : ∀ done i rest b s g, is = done ++ i :: rest → Inv done b s g →
      Ensures p (f b i) s g fun ended s' g' => (∀ b', ended = .ok b' → Inv (done ++ [i]) b' s' g') ∧
        ∀ e, ended = .error e → Q (.error e) s' g')
    (hdone : ∀ b s g, Inv is b s g → Q (.ok b) s g) : Ensures p (is.foldlM f b) s g Q :=
  ensures_foldlM_from Inv hstep hdone rfl hstart

/-! ### How a program finishes -/

/-- A value comes with `R`, an error with `E`. -/
def Finishes (R : α → ρ → Prop) (E : ρ → Prop) (ended : Except ε α) (_ : σ) (g : ρ) : Prop :=
  (∀ a, ended = .ok a → R a g) ∧ ∀ e, ended = .error e → E g

variable {R : α → ρ → Prop} {R' : β → ρ → Prop} {E : ρ → Prop}

@[simp] theorem finishes_ok {a : α} : Finishes R E (.ok a : Except ε α) s g ↔ R a g := by simp [Finishes]

@[simp] theorem finishes_error {e : ε} : Finishes R E (.error e : Except ε α) s g ↔ E g := by simp [Finishes]

@[simp] theorem finishes_mapError {f : ε → ε'} {ended : Except ε α} :
    Finishes R E (ended.mapError f) s g ↔ Finishes R E ended s g := by
  cases ended <;> simp [Except.mapError]

/-- What a part leaves is where the rest starts; when it fails, so does the whole. -/
theorem ensures_bind_finishes {x : Program I σ ε α} {f : α → Program I σ ε β} (hx : Ensures p x s g (Finishes R E))
    (hf : ∀ a s' g', R a g' → Ensures p (f a) s' g' (Finishes R' E)) : Ensures p (x >>= f) s g (Finishes R' E) := by
  refine ensures_bind (ensures_mono hx fun ended s' g' h => ?_)
  rcases ended with e | a
  · exact then_error.2 (finishes_error.2 (finishes_error.1 h))
  · exact then_ok.2 (hf a s' g' (finishes_ok.1 h))

theorem ensures_mapError_finishes {x : Program I σ ε α} {f : ε → ε'} (hx : Ensures p x s g (Finishes R E)) :
    Ensures p (mapError f x) s g (Finishes R E) :=
  ensures_mapError (ensures_mono hx fun _ _ _ h => finishes_mapError.2 h)

end Triples

/-! ## Runs in a known environment -/

/-- From the environment's state `s` the program ends so, and leaves `s'`. -/
def Computes {I : Interface} {σ ε α : Type} (x : Program I σ ε α) (s : σ) (ended : Except ε α) (s' : σ) : Prop :=
  ∀ before, ∃ events, x (s, before) = some (ended, (s', before ++ events))

namespace Computes

variable {I : Interface} {σ ε ε' α β : Type} {s s1 s2 : σ}

theorem lift (result : Except ε α) : Computes (I := I) (Interact.lift result) s result s :=
  fun before => ⟨[], by rw [List.append_nil]; rfl⟩

theorem pure (a : α) : Computes (I := I) (Pure.pure a : Program I σ ε α) s (.ok a) s := lift (.ok a)

theorem throw (e : ε) : Computes (I := I) (MonadExcept.throw e : Program I σ ε α) s (.error e) s := lift (.error e)

theorem panicking {value : Option α} {a : α} (h : value = some a) :
    Computes (I := I) (ε := ε) (Interact.panicking value) s (.ok a) s := by
  subst h
  exact lift (.ok a)

theorem ask (env : Environment I σ) (s : σ) (call : I.Call) : Computes (ε := ε) (Interact.ask env call) s (.ok (env call s).1) (env call s).2 :=
  fun _ => ⟨[⟨call, (env call s).1⟩], rfl⟩

theorem refused {condition : Prop} [Decidable condition] (h : condition) (e : ε) :
    Computes (I := I) (Interact.refuse condition e) s (.error e) s := by
  unfold Interact.refuse
  rw [if_pos h]
  exact throw e

theorem passed {condition : Prop} [Decidable condition] (h : ¬ condition) (e : ε) :
    Computes (I := I) (Interact.refuse condition e) s (.ok ()) s := by
  unfold Interact.refuse
  rw [if_neg h]
  exact pure ()

theorem bind {x : Program I σ ε α} {f : α → Program I σ ε β} {a : α} {ended : Except ε β} (hx : Computes x s (.ok a) s1)
    (hf : Computes (f a) s1 ended s2) : Computes (x >>= f) s ended s2 := by
  intro before
  obtain ⟨events, hrun⟩ := hx before
  obtain ⟨more, hrun'⟩ := hf (before ++ events)
  exact ⟨events ++ more, by rw [bind_of_ok hrun, hrun', List.append_assoc]⟩

theorem bind_error {x : Program I σ ε α} {f : α → Program I σ ε β} {e : ε} (hx : Computes x s (.error e) s1) :
    Computes (x >>= f) s (.error e) s1 := by
  intro before
  obtain ⟨events, hrun⟩ := hx before
  exact ⟨events, bind_of_error hrun⟩

/-- Parts that leave the state as it is follow one another as their results do. -/
theorem seq {x : Program I σ ε α} {f : α → Program I σ ε β} {result : Except ε α} {g : α → Except ε β}
    (hx : Computes x s result s) (hf : ∀ a, result = .ok a → Computes (f a) s (g a) s) :
    Computes (x >>= f) s (result >>= g) s := by
  rcases result with e | a
  · exact hx.bind_error
  · exact hx.bind (hf a rfl)

/-- A check in front of the rest. -/
theorem guard {condition : Prop} [Decidable condition] {e : ε} {f : Unit → Program I σ ε α} {g : PUnit → Except ε α}
    (hf : ¬ condition → Computes (f ()) s (g ⟨⟩) s) :
    Computes (Interact.refuse condition e >>= f) s (if condition then MonadExcept.throw e >>= g else g ⟨⟩) s := by
  by_cases h : condition
  · rw [if_pos h]
    exact (refused h e).bind_error
  · rw [if_neg h]
    exact (passed h e).bind (hf h)

theorem outcome {x : Program I σ ε α} {ended : Except ε α} (hx : Computes x s ended s1) :
    Computes (ε := ε') (Interact.outcome x) s (.ok ended) s1 := by
  intro before
  obtain ⟨events, hrun⟩ := hx before
  exact ⟨events, by unfold Interact.outcome; rw [hrun]; rfl⟩

theorem mapError {x : Program I σ ε α} {ended : Except ε α} (f : ε → ε') (hx : Computes x s ended s1) :
    Computes (Interact.mapError f x) s (ended.mapError f) s1 := by
  intro before
  obtain ⟨events, hrun⟩ := hx before
  exact ⟨events, by unfold Interact.mapError; rw [hrun]; rfl⟩

theorem orThrow {x : Program I σ ε' (Except ε α)} {result : Except ε α} (f : ε → ε') (hx : Computes x s (.ok result) s1) :
    Computes (Interact.orThrow f x) s (result.mapError f) s1 :=
  hx.bind (lift _)

end Computes

/-! ## Loops in a known environment -/

/-- The program ends as the result of a step says, and leaves a state related to the step's: by `Rel`, its value
included, when it goes on, and by `Left` when it does not. -/
inductive Round {I : Interface} {σ ε β τ : Type} (x : Program I σ ε β) (s : σ) (Rel : β → τ → σ → Prop)
    (Left : τ → σ → Prop) : Option (Except ε Unit × τ) → Prop
  | ok {b : β} {t : τ} {s' : σ} (hx : Computes x s (.ok b) s') (h : Rel b t s') : Round x s Rel Left (some (.ok (), t))
  | error {e : ε} {t : τ} {s' : σ} (hx : Computes x s (.error e) s') (h : Left t s') : Round x s Rel Left (some (.error e, t))

namespace Round

variable {I : Interface} {σ ε ε' β γ ι τ : Type} {x : Program I σ ε β} {s s' : σ} {Rel : β → τ → σ → Prop}
  {Left : τ → σ → Prop} {result : Option (Except ε Unit × τ)}

theorem prepend {y : Program I σ ε γ} {f : γ → Program I σ ε β} {c : γ} (hy : Computes y s (.ok c) s')
    (h : Round (f c) s' Rel Left result) : Round (y >>= f) s Rel Left result := by
  cases h with
  | ok hx h => exact .ok (hy.bind hx) h
  | error hx h => exact .error (hy.bind hx) h

theorem mapError (f : ε → ε') (h : Round x s Rel Left result) :
    Round (Interact.mapError f x) s Rel Left (result.map fun run => (run.1.mapError f, run.2)) := by
  cases h with
  | ok hx h => exact .ok (hx.mapError f) h
  | error hx h => exact .error (hx.mapError f) h

/-- A fold matches the traversal whose rounds it matches. -/
theorem loop {step : β → ι → Program I σ ε β} {big : ι → τ → Option (Except ε Unit × τ)} : ∀ {is : List ι},
    (∀ i ∈ is, ∀ b t s, Rel b t s → Round (step b i) s Rel Left (big i t)) → ∀ {b : β} {t : τ} {s : σ}, Rel b t s →
      Round (is.foldlM step b) s Rel Left (Traverse.forEach big is t)
  | [], _, b, t, s, h => .ok (.pure b) h
  | i :: is, hstep, b, t, s, h => by
    have hround := hstep i (List.mem_cons_self ..) b t s h
    rw [List.foldlM_cons]
    unfold Traverse.forEach
    generalize big i t = result at hround
    cases hround with
    | error hx h => exact .error hx.bind_error h
    | ok hx h =>
      have hrest := loop (fun j hj => hstep j (List.mem_cons_of_mem _ hj)) h
      dsimp only
      generalize Traverse.forEach big is _ = result at hrest
      cases hrest with
      | ok hx' h' => exact .ok (hx.bind hx') h'
      | error hx' h' => exact .error (hx.bind hx') h'

end Round

end Interact
