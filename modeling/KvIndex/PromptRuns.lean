import KvIndex.ProgramRuns

/-! How soon a program ends once its environment wants it to. The answers that tell a program to
stop are given; the bound is on the operations it still performs while it is answered so. -/
namespace KvIndex
namespace Prog

variable {Op : Type} {Res : Op → Type} {α β ε : Type}

/-- While it is told to stop the program performs at most `n` operations, of which `left` are kept
for what comes behind it; whatever it is answered first, there are never more than `most`. -/
def Prompt (told : (o : Op) → Res o → Prop) (most : ℕ) (left : α → ℕ) : ℕ → Prog Res α → Prop
  | n, done a => left a ≤ n ∧ n ≤ most
  | 0, perform _ _ => False
  | n+1, perform o next => n+1 ≤ most ∧
      ∀ r, (told o r → Prompt told most left n (next r)) ∧ ∃ m, Prompt told most left m (next r)

variable {told : (o : Op) → Res o → Prop} {most n : ℕ} {left : α → ℕ} {p q : Prog Res α}

theorem Prompt.le_most (h : Prompt told most left n p) : n ≤ most := by
  cases p with
  | done a => exact h.2
  | perform o next =>
    cases n with
    | zero => exact Nat.zero_le most
    | succ n => exact h.1

theorem Prompt.mono {n' : ℕ} (h : Prompt told most left n p) (hle : n ≤ n') (hmost : n' ≤ most) :
    Prompt told most left n' p := by
  induction p generalizing n n' with
  | done a => exact ⟨h.1.trans hle,hmost⟩
  | perform o next ih =>
    cases n with
    | zero => exact h.elim
    | succ n =>
      cases n' with
      | zero => exact absurd hle (Nat.not_succ_le_zero n)
      | succ n' =>
        refine ⟨hmost,fun r => ⟨fun hr => ?_,(h.2 r).2⟩⟩
        exact ih r ((h.2 r).1 hr) (Nat.le_of_succ_le_succ hle) (Nat.le_of_succ_le hmost)

theorem Prompt.bind {left' : β → ℕ} {f : α → Prog Res β} (h : Prompt told most left n p)
    (hf : ∀ a, Prompt told most left' (left a) (f a)) :
    Prompt told most left' n (p >>= f) := by
  induction p generalizing n with
  | done a => exact (hf a).mono h.1 h.2
  | perform o next ih =>
    cases n with
    | zero => exact h.elim
    | succ n =>
      refine ⟨h.1,fun r => ⟨fun hr => ih r ((h.2 r).1 hr),?_⟩⟩
      obtain ⟨m,hm⟩ := (h.2 r).2
      exact ⟨m,ih r hm⟩

/-- What is left of a program that is told to stop has that much less to do. -/
theorem Prompt.stops (h : Prompt told most left n p) {events : List (Event Res)}
    (hleaves : Leaves p events q) (htold : ∀ event ∈ events, told event.1 event.2) :
    events.length ≤ n ∧ Prompt told most left (n-events.length) q := by
  induction hleaves generalizing n with
  | nil p => exact ⟨Nat.zero_le n,h⟩
  | @perform o next r events q hleaves ih =>
    cases n with
    | zero => exact h.elim
    | succ n =>
      have hfirst := (h.2 r).1 (htold ⟨o,r⟩ List.mem_cons_self)
      obtain ⟨hlength,hrest⟩ := ih hfirst fun event hevent =>
        htold event (List.mem_cons_of_mem _ hevent)
      refine ⟨Nat.succ_le_succ hlength,?_⟩
      rw [List.length_cons,Nat.succ_sub_succ]
      exact hrest

/-- Wherever a program has got to, `most` operations are enough. -/
theorem Prompt.leaves (h : Prompt told most left n p) {events : List (Event Res)}
    (hleaves : Leaves p events q) : Prompt told most left most q := by
  induction hleaves generalizing n with
  | nil p => exact h.mono h.le_most le_rfl
  | @perform o next r events q hleaves ih =>
    cases n with
    | zero => exact h.elim
    | succ n =>
      obtain ⟨m,hm⟩ := (h.2 r).2
      exact ih hm

/-- Behind an early return nothing is left to do. -/
def PromptOr (told : (o : Op) → Res o → Prop) (most : ℕ) (left : α → ℕ) (n : ℕ)
    (p : ExceptT ε (Prog Res) α) : Prop :=
  Prompt told most (fun result : Except ε α =>
    match result with
    | .error _ => 0
    | .ok a => left a) n p.run

theorem PromptOr.pure {a : α} (hleft : left a ≤ n) (hmost : n ≤ most) :
    PromptOr told most left n (Pure.pure a : ExceptT ε (Prog Res) α) := ⟨hleft,hmost⟩

theorem PromptOr.throw {e : ε} (hmost : n ≤ most) :
    PromptOr told most left n (throw e : ExceptT ε (Prog Res) α) := ⟨Nat.zero_le n,hmost⟩

/-- One operation; an answer that does not tell the program to stop may leave more to do. -/
theorem PromptOr.call {o : Op} {left : Res o → ℕ} (htold : ∀ r, told o r → left r ≤ n)
    (hleft : ∀ r, left r ≤ most) (hmost : n+1 ≤ most) :
    PromptOr told most left (n+1)
      (ExceptT.lift (Prog.call o) : ExceptT ε (Prog Res) (Res o)) := by
  refine ⟨hmost,fun r => ⟨fun hr => ?_,left r,?_⟩⟩
  · exact ⟨htold r hr,Nat.le_of_succ_le hmost⟩
  · exact ⟨le_rfl,hleft r⟩

theorem PromptOr.mono {n' : ℕ} {p : ExceptT ε (Prog Res) α} (h : PromptOr told most left n p)
    (hle : n ≤ n') (hmost : n' ≤ most) : PromptOr told most left n' p :=
  Prompt.mono h hle hmost

theorem PromptOr.bind {left' : β → ℕ} {p : ExceptT ε (Prog Res) α}
    {f : α → ExceptT ε (Prog Res) β} (h : PromptOr told most left n p)
    (hf : ∀ a, PromptOr told most left' (left a) (f a)) :
    PromptOr told most left' n (p >>= f) := by
  refine Prompt.bind h fun result => ?_
  cases result with
  | error e => exact ⟨le_rfl,Nat.zero_le most⟩
  | ok a => exact hf a

end Prog
end KvIndex
