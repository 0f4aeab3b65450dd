import CompileWatch.Journal

/-!
# Actions, by answer and state

An action on a state is known by two functions: what it answers and what it
leaves. Both are given here with their equations for the ways in which actions
are put together, and with the one question that most of the theory asks of an
action: which predicates on states it keeps.
-/

namespace CompileWatch

variable {σ α β : Type}

/-- What an action answers in a state. -/
def answer (x : StateM σ α) (s : σ) : α := (x.run s).1

/-- The state that an action leaves. -/
def after (x : StateM σ α) (s : σ) : σ := (x.run s).2

section Equations

variable (s : σ)

@[simp]
theorem answer_bind (x : StateM σ α) (f : α → StateM σ β) :
    answer (x >>= f) s = answer (f (answer x s)) (after x s) := rfl

@[simp]
theorem after_bind (x : StateM σ α) (f : α → StateM σ β) :
    after (x >>= f) s = after (f (answer x s)) (after x s) := rfl

@[simp]
theorem answer_get : answer (get : StateM σ σ) s = s := rfl

@[simp]
theorem after_get : after (get : StateM σ σ) s = s := rfl

end Equations

/-- Whether an action keeps a predicate on states. -/
def Keeps (P : σ → Prop) (x : StateM σ α) : Prop := ∀ s, P s → P (after x s)

namespace Keeps

variable {P : σ → Prop} {x : StateM σ α}

protected theorem pure (a : α) : Keeps P (pure a : StateM σ α) := fun _ h => h

protected theorem bind {f : α → StateM σ β} (hx : Keeps P x) (hf : ∀ a, Keeps P (f a)) :
    Keeps P (x >>= f) := fun s h => hf _ _ (hx s h)

protected theorem map {g : α → β} (hx : Keeps P x) : Keeps P (g <$> x) := hx

protected theorem get : Keeps P (get : StateM σ σ) := fun _ h => h

end Keeps

/-- An action does what another does on the states that a function gives for its own. -/
def Projects {τ : Type} (f : σ → τ) (x : StateM σ α) (y : StateM τ α) : Prop :=
  ∀ s, answer x s = answer y (f s) ∧ f (after x s) = after y (f s)

namespace Projects

variable {τ : Type} {f : σ → τ} {x : StateM σ α} {y : StateM τ α}

protected theorem pure (a : α) : Projects f (pure a : StateM σ α) (pure a) := fun _ => ⟨rfl, rfl⟩

protected theorem bind (h : Projects f x y) {g : α → StateM σ β} {k : α → StateM τ β}
    (hg : ∀ a, Projects f (g a) (k a)) : Projects f (x >>= g) (y >>= k) := by
  intro s
  rw [answer_bind, answer_bind, after_bind, after_bind, (h s).1, ← (h s).2]
  exact hg _ _

protected theorem map (h : Projects f x y) (g : α → β) : Projects f (g <$> x) (g <$> y) :=
  fun s => ⟨congrArg g (h s).1, (h s).2⟩

end Projects

/-! ## Outcomes -/

section Outcomes

variable {ε : Type} {x : Except ε α}

/-- What succeeds has succeeded in its parts. -/
theorem of_bind_eq_ok {f : α → Except ε β} {b : β} (h : x >>= f = .ok b) :
    ∃ a, x = .ok a ∧ f a = .ok b := by
  cases x with
  | error e => cases h
  | ok a => exact ⟨a, rfl, h⟩

theorem of_map_eq_ok {f : α → β} {b : β} (h : f <$> x = .ok b) : ∃ a, x = .ok a ∧ f a = b := by
  cases x with
  | error e => cases h
  | ok a => exact ⟨a, rfl, Except.ok.inj h⟩

end Outcomes

/-! ## Actions one after another

The steps of a run are values, and each stands for an action. The log of a run is
all that can be seen of it from outside: its steps, each with its answer. -/

namespace Run

variable {ι : Type} (act : ι → StateM σ α)

/-- The state after some steps. -/
def play (steps : List ι) (s : σ) : σ := steps.foldl (fun s step => after (act step) s) s

/-- The steps of a run with their answers, the earliest first. -/
def log : List ι → σ → List (ι × α)
  | [], _ => []
  | step :: rest, s => (step, answer (act step) s) :: log rest (after (act step) s)

theorem play_concat (steps : List ι) (step : ι) (s : σ) :
    play act (steps ++ [step]) s = after (act step) (play act steps s) := by
  rw [play, List.foldl_append]
  rfl

theorem log_concat (step : ι) : ∀ (steps : List ι) (s : σ),
    log act (steps ++ [step]) s = log act steps s ++ [(step, answer (act step) (play act steps s))]
  | [], _ => rfl
  | first :: rest, s => congrArg (_ :: ·) (log_concat step rest (after (act first) s))

variable {act}

/-- An entry of a log is the answer in the state that the steps before it have left. -/
theorem of_log_eq {step : ι} {a : α} {later : List (ι × α)} :
    ∀ {steps : List ι} {s : σ} {earlier : List (ι × α)},
      log act steps s = earlier ++ (step, a) :: later →
        ∃ before, log act before s = earlier ∧ a = answer (act step) (play act before s)
  | [], _, earlier, h => by simp [log] at h
  | first :: rest, s, [], h => by
      cases h
      exact ⟨[], rfl, rfl⟩
  | first :: rest, s, entry :: earlier, h => by
      rw [log, List.cons_append, List.cons.injEq] at h
      obtain ⟨before, hlog, ha⟩ := of_log_eq h.2
      exact ⟨first :: before, by rw [log, hlog, h.1], ha⟩

/-- An entry of a log with one more is that one, or has it at the end of those that follow. -/
theorem split_concat_iff {ε : Type} {P : ε → List ε → Prop} {entries : List ε} {last : ε} :
    (∃ earlier e later, entries ++ [last] = earlier ++ e :: later ∧ P e later) ↔
      P last [] ∨ ∃ earlier e later, entries = earlier ++ e :: later ∧ P e (later ++ [last]) := by
  constructor
  · rintro ⟨earlier, e, later, hsplit, he⟩
    rcases List.eq_nil_or_concat later with rfl | ⟨later, l, rfl⟩
    · obtain ⟨-, hlast⟩ := List.append_inj' hsplit rfl
      cases hlast
      exact .inl he
    · rw [List.concat_eq_append] at hsplit he
      rw [← List.cons_append, ← List.append_assoc] at hsplit
      obtain ⟨rfl, hlast⟩ := List.append_inj' hsplit rfl
      cases hlast
      exact .inr ⟨earlier, e, later, rfl, he⟩
  · rintro (he | ⟨earlier, e, later, rfl, he⟩)
    · exact ⟨entries, last, [], rfl, he⟩
    · exact ⟨earlier, e, later ++ [last], by simp, he⟩

/-- Where some steps are answered by a part of the state which no other steps change, they are
answered as if there were no others. -/
theorem log_filter {β : Type} (act : ι → StateM σ α) (view : σ → β) (own : ι → Bool)
    (hown : ∀ step, own step = true → ∀ s t, view s = view t →
      answer (act step) s = answer (act step) t ∧
        view (after (act step) s) = view (after (act step) t))
    (hother : ∀ step, own step = false → ∀ s, view (after (act step) s) = view s) :
    ∀ (steps : List ι) {s t : σ}, view s = view t →
      (log act steps s).filter (own ·.1) = log act (steps.filter own) t ∧
        view (play act steps s) = view (play act (steps.filter own) t)
  | [], _, _, h => ⟨rfl, h⟩
  | step :: rest, s, t, h => by
      cases hstep : own step with
      | true =>
          obtain ⟨hanswer, hview⟩ := hown step hstep s t h
          obtain ⟨hlog, hplay⟩ := log_filter act view own hown hother rest hview
          simp only [log, List.filter_cons, hstep, if_true, hlog, hanswer]
          exact ⟨trivial, hplay⟩
      | false =>
          have hview : view (after (act step) s) = view t := (hother step hstep s).trans h
          obtain ⟨hlog, hplay⟩ := log_filter act view own hown hother rest hview
          simp only [log, List.filter_cons, hstep, Bool.false_eq_true, if_false, hlog]
          exact ⟨trivial, hplay⟩

end Run

/-! ## Actions on a world

A predicate on file systems is one on worlds that does not read the journal. -/

def OfStore (P : σ → Prop) (w : World σ) : Prop := P w.store

namespace Exec

variable (w : World σ)

@[simp]
theorem answer_onStore (x : StateM σ α) : answer (onStore x) w = answer x w.store := rfl

@[simp]
theorem after_onStore (x : StateM σ α) :
    after (onStore x) w = { w with store := after x w.store } := rfl

theorem keeps_onStore {P : σ → Prop} {x : StateM σ α} (h : Keeps P x) :
    Keeps (OfStore P) (onStore x) := fun w hw => h w.store hw

theorem keeps_report {P : σ → Prop} (level : LogLevel) (message : String) :
    Keeps (OfStore P) (report level message) := fun _ h => h

end Exec

end CompileWatch
