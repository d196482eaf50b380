import Mathlib.Tactic

/-! Runs of a labelled transition system. -/
namespace KvIndex

variable {S L : Type}

/-- A step of a longer history is a step of the history or the last one. -/
theorem exists_split_snoc {P : List L → L → Prop} {labels : List L} {last label : L} :
    (∃ earlier later, labels++[last] = earlier++label::later ∧ P earlier label) ↔
      (∃ earlier later, labels = earlier++label::later ∧ P earlier label) ∨
        label = last ∧ P labels last := by
  constructor
  · rintro ⟨earlier,later,hsplit,h⟩
    rcases later.eq_nil_or_concat with rfl | ⟨later,other,rfl⟩
    · obtain ⟨rfl,hlast⟩ := List.append_inj' hsplit rfl
      rw [List.singleton_inj] at hlast
      exact Or.inr ⟨hlast.symm,hlast ▸ h⟩
    · rw [List.concat_eq_append,← List.cons_append,← List.append_assoc] at hsplit
      obtain ⟨hlabels,_⟩ := List.append_inj' hsplit rfl
      exact Or.inl ⟨earlier,later,hlabels,h⟩
  · rintro (⟨earlier,later,rfl,h⟩ | ⟨rfl,h⟩)
    · exact ⟨earlier,later++[last],by simp,h⟩
    · exact ⟨labels,[],rfl,h⟩

/-- The system can go from one state to another with these labels. -/
inductive Steps (step : S → L → S → Prop) (start : S) : List L → S → Prop
  | nil : Steps step start [] start
  | snoc {labels : List L} {s s' : S} {label : L} :
      Steps step start labels s → step s label s' → Steps step start (labels++[label]) s'

namespace Steps

variable {step : S → L → S → Prop} {start s : S} {labels : List L}

/-- What holds at the start and is kept by every step holds along every run. -/
theorem invariant (Inv : List L → S → Prop) (h : Steps step start labels s)
    (hstart : Inv [] start)
    (hstep : ∀ labels s label s', Inv labels s → step s label s' → Inv (labels++[label]) s') :
    Inv labels s := by
  induction h with
  | nil => exact hstart
  | snoc _ hlast ih => exact hstep _ _ _ _ ih hlast

theorem last {label : L} (h : Steps step start (labels++[label]) s) :
    ∃ t, Steps step start labels t ∧ step t label s := by
  generalize hl : labels++[label] = all at h
  cases h with
  | nil => simp at hl
  | @snoc init t _ last hrun hlast =>
    obtain ⟨rfl,hlabel⟩ := List.append_inj' hl rfl
    rw [List.singleton_inj] at hlabel
    subst hlabel
    exact ⟨t,hrun,hlast⟩

theorem of_nil (h : Steps step start [] s) : s = start := by
  generalize hl : ([] : List L) = all at h
  cases h with
  | nil => rfl
  | snoc _ _ => simp at hl

theorem of_single {label : L} (h : Steps step start [label] s) : step start label s := by
  obtain ⟨t,hnil,hstep⟩ := last (List.nil_append [label] ▸ h)
  rwa [← hnil.of_nil]

theorem head {label : L} {t : S} (hfirst : step start label t) (h : Steps step t labels s) :
    Steps step start (label::labels) s := by
  induction h with
  | nil => exact Steps.snoc Steps.nil hfirst
  | snoc _ hlast ih => exact Steps.snoc ih hlast

theorem mono {step' : S → L → S → Prop} (hstep : ∀ s label s', step s label s' → step' s label s')
    (h : Steps step start labels s) : Steps step' start labels s := by
  induction h with
  | nil => exact nil
  | snoc _ hlast ih => exact ih.snoc (hstep _ _ _ hlast)

theorem append {more : List L} {t : S} (h : Steps step start labels s) (h' : Steps step s more t) :
    Steps step start (labels++more) t := by
  induction h' with
  | nil => rwa [List.append_nil]
  | snoc _ hlast ih =>
    rw [← List.append_assoc]
    exact ih.snoc hlast

end Steps
end KvIndex
