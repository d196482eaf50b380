import KvIndex.ProgramRuns

/-! Programs that cannot tell answers apart. Where a program goes on in the same way behind answers
that stand for the same thing, it ends in the same way in all runs that differ in such answers
only. -/
namespace KvIndex
namespace Prog

variable {Op : Type} {Res : Op → Type} {α β ε : Type}

/-- The program goes on in the same way behind answers that are alike. -/
def Blind (alike : (o : Op) → Res o → Res o → Prop) : Prog Res α → Prop
  | done _ => True
  | perform _ next => (∀ r r', alike _ r r' → next r = next r') ∧ ∀ r, Blind alike (next r)

/-- The same operation, with answers that are alike. -/
def AlikeEvents (alike : (o : Op) → Res o → Res o → Prop) (event event' : Event Res) : Prop :=
  ∃ o r r', event = ⟨o,r⟩ ∧ event' = ⟨o,r'⟩ ∧ alike o r r'

variable {alike : (o : Op) → Res o → Res o → Prop}

theorem Blind.bind {p : Prog Res α} {f : α → Prog Res β} (h : Blind alike p)
    (hf : ∀ a, Blind alike (f a)) : Blind alike (p >>= f) := by
  induction p with
  | done a => exact hf a
  | perform o next ih =>
    refine ⟨fun r r' hr => ?_,fun r => ih r (h.2 r)⟩
    show (next r).bind f = (next r').bind f
    rw [h.1 r r' hr]

theorem Blind.call {o : Op} (h : ∀ r r', alike o r r' → r = r') :
    Blind alike (Prog.call o : Prog Res (Res o)) :=
  ⟨fun r r' hr => by rw [h r r' hr],fun _ => trivial⟩

/-- Runs that differ in answers that are alike end in the same way. -/
theorem Blind.emits {p : Prog Res α} (h : Blind alike p) {events events' : List (Event Res)}
    {out : Option α} (halike : List.Forall₂ (AlikeEvents alike) events events')
    (he : Emits p events out) : Emits p events' out := by
  induction he generalizing events' with
  | running p =>
    cases halike
    exact Emits.running p
  | done a =>
    cases halike
    exact Emits.done a
  | @perform o next r events out _ ih =>
    cases halike with
    | cons hevent hrest =>
      obtain ⟨_,_,r',heq,rfl,hr⟩ := hevent
      cases heq
      have hnext := ih (h.2 r) hrest
      rw [h.1 r r' hr] at hnext
      exact hnext.perform

theorem AlikeEvents.flip (hsymm : ∀ o r r', alike o r r' → alike o r' r)
    {events events' : List (Event Res)} (h : List.Forall₂ (AlikeEvents alike) events events') :
    List.Forall₂ (AlikeEvents alike) events' events := by
  induction h with
  | nil => exact List.Forall₂.nil
  | cons hevent _ ih =>
    obtain ⟨o,r,r',rfl,rfl,hr⟩ := hevent
    exact List.Forall₂.cons ⟨o,r',r,rfl,rfl,hsymm o r r' hr⟩ ih

/-- Environments with alike answers lead to runs that differ in such answers only. -/
theorem Blind.trace {S S' : Type} (same : S → S' → Prop) {handle : (o : Op) → S → Res o×S}
    {handle' : (o : Op) → S' → Res o×S'}
    (hsame : ∀ o s s', same s s' →
      alike o (handle o s).1 (handle' o s').1 ∧ same (handle o s).2 (handle' o s').2)
    {p : Prog Res α} (h : Blind alike p) {s : S} {s' : S'} (hs : same s s') :
    List.Forall₂ (AlikeEvents alike) (p.trace handle s) (p.trace handle' s') := by
  induction p generalizing s s' with
  | done a => exact List.Forall₂.nil
  | perform o next ih =>
    obtain ⟨hr,hnext⟩ := hsame o s s' hs
    refine List.Forall₂.cons ⟨o,_,_,rfl,rfl,hr⟩ ?_
    rw [← h.1 _ _ hr]
    exact ih _ (h.2 _) hnext

theorem Blind.throw (e : ε) : Blind alike (throw e : ExceptT ε (Prog Res) α).run := trivial

theorem Blind.pure (a : α) : Blind alike (Pure.pure a : ExceptT ε (Prog Res) α).run := trivial

theorem Blind.seq {p : ExceptT ε (Prog Res) α} {f : α → ExceptT ε (Prog Res) β}
    (h : Blind alike p.run) (hf : ∀ a, Blind alike (f a).run) : Blind alike (p >>= f).run := by
  refine Blind.bind h fun result => ?_
  cases result with
  | error e => exact trivial
  | ok a => exact hf a

theorem Blind.lift {o : Op} (h : ∀ r r', alike o r r' → r = r') :
    Blind alike (ExceptT.lift (Prog.call o) : ExceptT ε (Prog Res) (Res o)).run :=
  Blind.bind (Blind.call h) fun _ => trivial

/-- An operation that is followed by something that cannot tell its answers apart. -/
theorem Blind.call_seq {o : Op} {f : Res o → ExceptT ε (Prog Res) β}
    (hsame : ∀ r r', alike o r r' → f r = f r') (hf : ∀ r, Blind alike (f r).run) :
    Blind alike (ExceptT.lift (Prog.call o) >>= f).run :=
  ⟨fun r r' hr => congrArg ExceptT.run (hsame r r' hr),hf⟩

theorem Blind.foldlM {f : β → α → ExceptT ε (Prog Res) β} (hf : ∀ b a, Blind alike (f b a).run)
    (l : List α) (b : β) : Blind alike (l.foldlM f b).run := by
  induction l generalizing b with
  | nil => exact Blind.pure b
  | cons a l ih =>
    rw [List.foldlM_cons]
    exact Blind.seq (hf b a) ih

theorem Blind.forM {f : α → ExceptT ε (Prog Res) PUnit} (hf : ∀ a, Blind alike (f a).run)
    (l : List α) : Blind alike (l.forM f).run := by
  induction l with
  | nil => exact Blind.pure PUnit.unit
  | cons a l ih => exact Blind.seq (hf a) fun _ => ih

end Prog
end KvIndex
