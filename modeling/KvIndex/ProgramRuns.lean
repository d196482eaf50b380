import KvIndex.Effects

/-! Whole runs of a program. A program that may return early gives a value when it runs to its
end; a run of a sequence is a run of its parts, and a loop is a run for each of its elements. -/
namespace KvIndex
namespace Prog

variable {Op : Type} {Res : Op → Type} {α β ε : Type}

theorem Emits.bind {p : Prog Res α} {f : α → Prog Res β} {first second : List (Event Res)} {a : α}
    {out : Option β} (hp : Emits p first (some a)) (hf : Emits (f a) second out) :
    Emits (p >>= f) (first++second) out := by
  generalize hend : some a = ended at hp
  induction hp with
  | running p => cases hend
  | done b =>
    cases hend
    exact hf
  | perform _ ih => exact (ih hend).perform

/-- The run of a sequence is still in its first part, or has left it. -/
theorem Emits.bind_cases {p : Prog Res α} {f : α → Prog Res β} {events : List (Event Res)}
    {out : Option β} (h : Emits (p >>= f) events out) :
    Emits p events none ∨
      ∃ first a second, Emits p first (some a) ∧ Emits (f a) second out ∧ events = first++second := by
  induction p generalizing events with
  | done a => exact Or.inr ⟨[],a,events,Emits.done a,h,rfl⟩
  | perform o next ih =>
    cases h with
    | running => exact Or.inl (Emits.running _)
    | @perform _ _ r _ _ h =>
      rcases ih r h with hrunning | ⟨first,a,second,hfirst,hsecond,rfl⟩
      · exact Or.inl hrunning.perform
      · exact Or.inr ⟨_,a,second,hfirst.perform,hsecond,rfl⟩

/-- What the environment does at every call, it has done at the calls of a run. -/
theorem trace_forall {S : Type} {handle : (o : Op) → S → Res o×S} {P : Event Res → Prop}
    (h : ∀ o s, P ⟨o,(handle o s).1⟩) (p : Prog Res α) (s : S) :
    ∀ event ∈ p.trace handle s, P event := by
  induction p generalizing s with
  | done a => exact fun event hevent => absurd hevent List.not_mem_nil
  | perform o next ih => exact List.forall_mem_cons.mpr ⟨h o s,ih _ _⟩

/-- The program runs to its end with these events, and gives the value there. -/
def Gives (p : ExceptT ε (Prog Res) α) (events : List (Event Res)) (a : α) : Prop :=
  Emits p.run events (some (.ok a))

theorem gives_pure {a b : α} {events : List (Event Res)} :
    Gives (pure a : ExceptT ε (Prog Res) α) events b ↔ events = [] ∧ a = b := by
  constructor
  · intro h
    cases h
    exact ⟨rfl,rfl⟩
  · rintro ⟨rfl,rfl⟩
    exact Emits.done _

theorem gives_throw {e : ε} {a : α} {events : List (Event Res)} :
    ¬Gives (throw e : ExceptT ε (Prog Res) α) events a := by
  intro h
  cases h

theorem gives_call {o : Op} {r : Res o} {events : List (Event Res)} :
    Gives (ExceptT.lift (call o) : ExceptT ε (Prog Res) (Res o)) events r ↔
      events = [⟨o,r⟩] := by
  constructor
  · intro h
    cases h with
    | perform h =>
      cases h
      rfl
  · rintro rfl
    show Emits (perform o fun r => done (Except.ok r : Except ε (Res o))) _ _
    refine Emits.perform ?_
    exact Emits.done _

theorem gives_bind {p : ExceptT ε (Prog Res) α} {f : α → ExceptT ε (Prog Res) β}
    {events : List (Event Res)} {b : β} :
    Gives (p >>= f) events b ↔
      ∃ first a second, Gives p first a ∧ Gives (f a) second b ∧ events = first++second := by
  constructor
  · intro h
    obtain ⟨first,result,second,hfirst,hsecond,rfl⟩ := Emits.of_bind h
    cases result with
    | error e => cases hsecond
    | ok a => exact ⟨first,a,second,hfirst,hsecond,rfl⟩
  · rintro ⟨first,a,second,hfirst,hsecond,rfl⟩
    exact Emits.bind hfirst hsecond

theorem gives_foldlM_cons {f : β → α → ExceptT ε (Prog Res) β} {a : α} {l : List α} {b c : β}
    {events : List (Event Res)} :
    Gives ((a::l).foldlM f b) events c ↔
      ∃ first mid second, Gives (f b a) first mid ∧ Gives (l.foldlM f mid) second c ∧
        events = first++second := by
  rw [List.foldlM_cons]
  exact gives_bind

theorem gives_forM_cons {f : α → ExceptT ε (Prog Res) PUnit} {a : α} {l : List α} {u : PUnit}
    {events : List (Event Res)} :
    Gives ((a::l).forM f) events u ↔
      ∃ first second, Gives (f a) first () ∧ Gives (l.forM f) second u ∧ events = first++second := by
  change Gives (f a >>= fun _ => l.forM f) events u ↔ _
  refine gives_bind.trans ⟨?_,?_⟩
  · rintro ⟨first,_,second,hfirst,hsecond,heq⟩
    exact ⟨first,second,hfirst,hsecond,heq⟩
  · rintro ⟨first,second,hfirst,hsecond,heq⟩
    exact ⟨first,(),second,hfirst,hsecond,heq⟩

/-- The run of a sequence has returned from its first part, or has ended it. -/
theorem Emits.bindOr_cases {p : ExceptT ε (Prog Res) α} {f : α → ExceptT ε (Prog Res) β}
    {events : List (Event Res)} {out : Option (Except ε β)}
    (h : Emits (p >>= f).run events out) :
    (∃ out', Emits p.run events out') ∨
      ∃ first a second, Gives p first a ∧ Emits (f a).run second out ∧ events = first++second := by
  rcases Emits.bind_cases h with hrunning | ⟨first,result,second,hfirst,hsecond,rfl⟩
  · exact Or.inl ⟨none,hrunning⟩
  · cases result with
    | ok a => exact Or.inr ⟨first,a,second,hfirst,hsecond,rfl⟩
    | error e =>
      cases hsecond with
      | running => exact Or.inl ⟨_,by rw [List.append_nil]; exact hfirst⟩
      | done => exact Or.inl ⟨_,by rw [List.append_nil]; exact hfirst⟩

/-- The rules that allow some operations always and the others never. -/
def onlyRules (Res : Op → Type) (allowed : Op → Prop) : Rules Res where
  allowed := fun _ o => allowed o

/-- Every operation of the program is one of these. -/
def Only (allowed : Op → Prop) (p : ExceptT ε (Prog Res) α) : Prop :=
  ∀ history, SafeOr (onlyRules Res allowed) (fun _ _ => True) (fun _ _ => True) history p

variable {allowed : Op → Prop}

theorem Only.pure (a : α) : Only allowed (Pure.pure a : ExceptT ε (Prog Res) α) :=
  fun _ => SafeOr.pure trivial

theorem Only.throw (e : ε) : Only allowed (throw e : ExceptT ε (Prog Res) α) :=
  fun _ => SafeOr.throw trivial

theorem Only.call {o : Op} (h : allowed o) :
    Only allowed (ExceptT.lift (Prog.call o) : ExceptT ε (Prog Res) (Res o)) :=
  fun _ => SafeOr.call h fun _ _ => trivial

theorem Only.bind {p : ExceptT ε (Prog Res) α} {f : α → ExceptT ε (Prog Res) β}
    (hp : Only allowed p) (hf : ∀ a, Only allowed (f a)) : Only allowed (p >>= f) :=
  fun history => SafeOr.bind (SafeOr.mono (fun history a _ => hf a history) (hp history))

/-- The rest of a sequence matters only for the values that its first part can give. -/
theorem Only.bindIf {Q : α → Prop} {p : ExceptT ε (Prog Res) α} {f : α → ExceptT ε (Prog Res) β}
    (hp : ∀ history, SafeOr (onlyRules Res allowed) (fun _ _ => True) (fun _ a => Q a) history p)
    (hf : ∀ a, Q a → Only allowed (f a)) : Only allowed (p >>= f) :=
  fun history => SafeOr.bind (SafeOr.mono (fun history a ha => hf a ha history) (hp history))

theorem Only.foldlM {f : β → α → ExceptT ε (Prog Res) β} (hf : ∀ b a, Only allowed (f b a))
    (l : List α) (b : β) : Only allowed (l.foldlM f b) := by
  induction l generalizing b with
  | nil => exact Only.pure b
  | cons a l ih =>
    rw [List.foldlM_cons]
    exact Only.bind (hf b a) ih

theorem Only.forM {f : α → ExceptT ε (Prog Res) PUnit} (hf : ∀ a, Only allowed (f a))
    (l : List α) : Only allowed (l.forM f) := by
  induction l with
  | nil => exact Only.pure PUnit.unit
  | cons a l ih => exact Only.bind (hf a) fun _ => ih

theorem Only.mono {allowed' : Op → Prop} {p : ExceptT ε (Prog Res) α} (h : Only allowed p)
    (himp : ∀ o, allowed o → allowed' o) : Only allowed' p := by
  intro history
  have hsafe := h history
  rw [SafeOr] at hsafe ⊢
  generalize p.run = q at hsafe
  induction q generalizing history with
  | done result => exact hsafe
  | perform o next ih => exact ⟨himp o hsafe.1,fun r hr => ih r _ (hsafe.2 r hr)⟩

theorem Only.emits {p : ExceptT ε (Prog Res) α} (h : Only allowed p) {events : List (Event Res)}
    {out : Option (Except ε α)} (he : Emits p.run events out) : ∀ event ∈ events, allowed event.1 := by
  intro event hevent
  obtain ⟨before,after,rfl⟩ := List.append_of_mem hevent
  exact (Safe.emits (h []) he (fun _ _ _ _ => trivial)).1 before event after rfl

end Prog
end KvIndex
