import KvIndex.Transition

/-! Programs that act on an environment. A program is a tree of operations; `Res o` is
what the environment may answer to the operation `o`. An environment that is known is
a handler, and the program is run in it; an environment that may answer anything is
met by rules, which say from the events so far which operation is allowed next. -/
namespace KvIndex

inductive Prog {Op : Type} (Res : Op → Type) (α : Type) where
  | done (a : α)
  | perform (o : Op) (next : Res o → Prog Res α)

namespace Prog

variable {Op Op' : Type} {Res : Op → Type} {Res' : Op' → Type} {α β : Type}

def bind : Prog Res α → (α → Prog Res β) → Prog Res β
  | done a, f => f a
  | perform o next, f => perform o fun r => (next r).bind f

instance : Monad (Prog Res) where
  pure := done
  bind := bind

def call (o : Op) : Prog Res (Res o) := perform o done

@[simp] theorem pure_eq (a : α) : (pure a : Prog Res α) = done a := rfl

@[simp] theorem done_bind (a : α) (f : α → Prog Res β) : (done a >>= f) = f a := rfl

@[simp] theorem perform_bind (o : Op) (next : Res o → Prog Res α) (f : α → Prog Res β) :
    (perform o next >>= f) = perform o fun r => next r >>= f := rfl

@[simp] theorem call_bind (o : Op) (f : Res o → Prog Res β) :
    (call o >>= f) = perform o f := rfl

theorem bind_assoc {γ : Type} (p : Prog Res α) (f : α → Prog Res β) (g : β → Prog Res γ) :
    (p >>= f >>= g) = p >>= fun a => f a >>= g := by
  induction p with
  | done a => rfl
  | perform o next ih =>
    simp only [perform_bind]
    congr 1
    funext r
    exact ih r

/-- The program with every operation carried out by another program. -/
def interp (f : (o : Op) → Prog Res' (Res o)) : Prog Res α → Prog Res' α
  | done a => done a
  | perform o next => f o >>= fun r => (next r).interp f

theorem interp_bind (f : (o : Op) → Prog Res' (Res o)) (p : Prog Res α) (g : α → Prog Res β) :
    (p >>= g).interp f = p.interp f >>= fun a => (g a).interp f := by
  induction p with
  | done a => rfl
  | perform o next ih =>
    simp only [perform_bind,interp,bind_assoc]
    congr 1
    funext r
    exact ih r

variable {S : Type}

def run (handle : (o : Op) → S → Res o×S) : Prog Res α → S → α×S
  | done a, s => (a,s)
  | perform o next, s => (next (handle o s).1).run handle (handle o s).2

/-- The environment after a run that is cut off behind its first `n` operations. -/
def runFor (handle : (o : Op) → S → Res o×S) : ℕ → Prog Res α → S → S
  | 0, _, s => s
  | _+1, done _, s => s
  | n+1, perform o next, s => runFor handle n (next (handle o s).1) (handle o s).2

abbrev Event (Res : Op → Type) := (o : Op)×Res o

/-- A program can emit these events, and has ended with a value or still runs. -/
inductive Emits : Prog Res α → List (Event Res) → Option α → Prop
  | running (p : Prog Res α) : Emits p [] none
  | done (a : α) : Emits (done a) [] (some a)
  | perform {o : Op} {next : Res o → Prog Res α} {r : Res o} {events : List (Event Res)}
      {out : Option α} : Emits (next r) events out → Emits (perform o next) (⟨o,r⟩::events) out

theorem Emits.before {p : Prog Res α} {before after : List (Event Res)} {out : Option α}
    (h : Emits p (before++after) out) : Emits p before none := by
  induction before generalizing p with
  | nil => exact running p
  | cons event before ih =>
    cases h with
    | perform h => exact (ih h).perform

/-- A composition that has ended ended its first part and then its second. -/
theorem Emits.of_bind {p : Prog Res α} {f : α → Prog Res β} {events : List (Event Res)} {b : β}
    (h : Emits (p >>= f) events (some b)) :
    ∃ first a second, Emits p first (some a) ∧ Emits (f a) second (some b) ∧
      events = first++second := by
  induction p generalizing events with
  | done a => exact ⟨[],a,events,done a,h,rfl⟩
  | perform o next ih =>
    cases h with
    | @perform _ _ r _ _ h =>
      obtain ⟨first,a,second,hfirst,hsecond,rfl⟩ := ih r h
      exact ⟨_,a,second,hfirst.perform,hsecond,rfl⟩

/-- The program is left as `q` behind these events. -/
inductive Leaves : Prog Res α → List (Event Res) → Prog Res α → Prop
  | nil (p : Prog Res α) : Leaves p [] p
  | perform {o : Op} {next : Res o → Prog Res α} {r : Res o} {events : List (Event Res)}
      {q : Prog Res α} : Leaves (next r) events q → Leaves (perform o next) (⟨o,r⟩::events) q

theorem Leaves.snoc {p : Prog Res α} {events : List (Event Res)} {o : Op}
    {next : Res o → Prog Res α} (h : Leaves p events (Prog.perform o next)) (r : Res o) :
    Leaves p (events++[⟨o,r⟩]) (next r) := by
  generalize hq : Prog.perform o next = q at h
  induction h with
  | nil p =>
    subst hq
    exact (nil (next r)).perform
  | perform _ ih => exact (ih hq).perform

theorem Leaves.emits {p q : Prog Res α} {events : List (Event Res)} (h : Leaves p events q) :
    Emits p events none := by
  induction h with
  | nil p => exact Emits.running p
  | perform _ ih => exact ih.perform

theorem Leaves.ends {p : Prog Res α} {events : List (Event Res)} {a : α}
    (h : Leaves p events (Prog.done a)) : Emits p events (some a) := by
  generalize hq : Prog.done a = q at h
  induction h with
  | nil p =>
    subst hq
    exact Emits.done a
  | perform _ ih => exact (ih hq).perform

def trace (handle : (o : Op) → S → Res o×S) : Prog Res α → S → List (Event Res)
  | done _, _ => []
  | perform o next, s => ⟨o,(handle o s).1⟩::(next (handle o s).1).trace handle (handle o s).2

theorem trace_emits (handle : (o : Op) → S → Res o×S) (p : Prog Res α) (s : S) :
    Emits p (p.trace handle s) (some (p.run handle s).1) := by
  induction p generalizing s with
  | done a => exact Emits.done a
  | perform o next ih => exact Emits.perform (ih _ _)

/-- A known environment whose answers are steps runs by these steps. -/
theorem steps_take {step : S → Event Res → S → Prop} {handle : (o : Op) → S → Res o×S}
    (h : ∀ o s, step s ⟨o,(handle o s).1⟩ (handle o s).2) (p : Prog Res α) (n : ℕ) (s : S) :
    Steps step s ((p.trace handle s).take n) (p.runFor handle n s) := by
  induction n generalizing p s with
  | zero => exact Steps.nil
  | succ n ih =>
    cases p with
    | done a => exact Steps.nil
    | perform o next => exact Steps.head (h o s) (ih _ _)

theorem steps_run {step : S → Event Res → S → Prop} {handle : (o : Op) → S → Res o×S}
    (h : ∀ o s, step s ⟨o,(handle o s).1⟩ (handle o s).2) (p : Prog Res α) (s : S) :
    Steps step s (p.trace handle s) (p.run handle s).2 := by
  induction p generalizing s with
  | done a => exact Steps.nil
  | perform o next ih => exact Steps.head (h o s) (ih _ _)

/-- What the events so far allow a program to do next, and the environment to answer. -/
structure Rules (Res : Op → Type) where
  allowed : List (Event Res) → Op → Prop
  possible : List (Event Res) → (o : Op) → Res o → Prop := fun _ _ _ => True

/-- All answers in the events were possible when they came. -/
def Rules.Possible (rules : Rules Res) (history events : List (Event Res)) : Prop :=
  ∀ before event after, events = before++event::after →
    rules.possible (history++before) event.1 event.2

/-- Behind the events `history`, every operation of the program is allowed, and `post`
holds where it ends. -/
def Safe (rules : Rules Res) (post : List (Event Res) → α → Prop) :
    List (Event Res) → Prog Res α → Prop
  | history, done a => post history a
  | history, perform o next => rules.allowed history o ∧
      ∀ r, rules.possible history o r → Safe rules post (history++[⟨o,r⟩]) (next r)

variable {rules : Rules Res}

theorem Safe.call_bind {post : List (Event Res) → α → Prop} {history : List (Event Res)} {o : Op}
    {f : Res o → Prog Res α} (ho : rules.allowed history o)
    (h : ∀ r, rules.possible history o r → Safe rules post (history++[⟨o,r⟩]) (f r)) :
    Safe rules post history (call o >>= f) := ⟨ho,h⟩

theorem Safe.mono {post post' : List (Event Res) → α → Prop}
    (hpost : ∀ history a, post history a → post' history a) {history : List (Event Res)}
    {p : Prog Res α} (h : Safe rules post history p) : Safe rules post' history p := by
  induction p generalizing history with
  | done a => exact hpost history a h
  | perform o next ih => exact ⟨h.1,fun r hr => ih r (h.2 r hr)⟩

theorem Safe.bind {post : List (Event Res) → β → Prop} {history : List (Event Res)}
    {p : Prog Res α} {f : α → Prog Res β}
    (h : Safe rules (fun history a => Safe rules post history (f a)) history p) :
    Safe rules post history (p >>= f) := by
  induction p generalizing history with
  | done a => exact h
  | perform o next ih => exact ⟨h.1,fun r hr => ih r (h.2 r hr)⟩

theorem Safe.emits {post : List (Event Res) → α → Prop} {history : List (Event Res)}
    {p : Prog Res α} (h : Safe rules post history p) {events : List (Event Res)} {out : Option α}
    (he : Emits p events out) (hp : rules.Possible history events) :
    (∀ before event after, events = before++event::after →
        rules.allowed (history++before) event.1) ∧
      ∀ a, out = some a → post (history++events) a := by
  induction he generalizing history with
  | running p =>
    refine ⟨?_,fun a ha => by cases ha⟩
    intro before event after heq
    simp at heq
  | done a =>
    refine ⟨?_,fun a ha => by cases ha; rw [List.append_nil]; exact h⟩
    intro before event after heq
    simp at heq
  | @perform o next r events out he ih =>
    have hr : rules.possible history o r := by
      simpa using hp [] ⟨o,r⟩ events rfl
    have hp' : rules.Possible (history++[⟨o,r⟩]) events := by
      intro before event after heq
      have hpos := hp (⟨o,r⟩::before) event after (by rw [heq,List.cons_append])
      rwa [List.append_assoc,List.singleton_append]
    obtain ⟨hallowed,hpost⟩ := ih (h.2 r hr) hp'
    rw [List.append_assoc,List.singleton_append] at hpost
    refine ⟨?_,hpost⟩
    intro before event after heq
    cases before with
    | nil =>
      cases heq
      rw [List.append_nil]
      exact h.1
    | cons first before =>
      cases heq
      have hnext := hallowed before event after rfl
      rwa [List.append_assoc,List.singleton_append] at hnext

/-- `exit` holds where the program returns early, and `post` where it ends. -/
def SafeOr {ε : Type} (rules : Rules Res) (exit : List (Event Res) → ε → Prop)
    (post : List (Event Res) → α → Prop) (history : List (Event Res))
    (p : ExceptT ε (Prog Res) α) : Prop :=
  Safe rules (fun history result =>
    match result with
    | .error e => exit history e
    | .ok a => post history a) history p.run

variable {ε : Type} {exit : List (Event Res) → ε → Prop} {history : List (Event Res)}

theorem SafeOr.pure {post : List (Event Res) → α → Prop} {a : α} (h : post history a) :
    SafeOr rules exit post history (pure a) := h

theorem SafeOr.throw {post : List (Event Res) → α → Prop} {e : ε} (h : exit history e) :
    SafeOr rules exit post history (throw e) := h

theorem SafeOr.call {o : Op} {post : List (Event Res) → Res o → Prop}
    (ho : rules.allowed history o)
    (h : ∀ r, rules.possible history o r → post (history++[⟨o,r⟩]) r) :
    SafeOr rules exit post history (ExceptT.lift (call o)) := ⟨ho,h⟩

theorem SafeOr.mono {post post' : List (Event Res) → α → Prop}
    (hpost : ∀ history a, post history a → post' history a) {p : ExceptT ε (Prog Res) α}
    (h : SafeOr rules exit post history p) : SafeOr rules exit post' history p := by
  refine Safe.mono ?_ h
  intro history result hr
  cases result with
  | error e => exact hr
  | ok a => exact hpost history a hr

theorem SafeOr.bind {post : List (Event Res) → β → Prop} {p : ExceptT ε (Prog Res) α}
    {f : α → ExceptT ε (Prog Res) β}
    (h : SafeOr rules exit (fun history a => SafeOr rules exit post history (f a)) history p) :
    SafeOr rules exit post history (p >>= f) := by
  refine Safe.bind (Safe.mono ?_ h)
  intro history result hr
  cases result with
  | error e => exact hr
  | ok a => exact hr

end Prog
end KvIndex
