import KvIndex.Transition

/-! A part of a system. Where every step of the whole is either a step of the part or leaves the
part as it is, a run of the whole is a run of the part alone, with the labels it sees. -/
namespace KvIndex
namespace Steps

variable {S L T M : Type} {step : S → L → S → Prop}

/-- What the part does in a step of the whole: the step it sees, or nothing. -/
def Follows (part : T → M → T → Prop) (Rel : S → T → Prop) (s' : S) (t : T) : Option M → Prop
  | none => Rel s' t
  | some label => ∃ t', part t label t' ∧ Rel s' t'

theorem project (part : T → M → T → Prop) (seen : L → Option M) (Rel : S → T → Prop)
    {start s : S} {t : T} {labels : List L} (h : Steps step start labels s) (hstart : Rel start t)
    (hstep : ∀ s label s' t, Rel s t → step s label s' → Follows part Rel s' t (seen label)) :
    ∃ t', Steps part t (labels.filterMap seen) t' ∧ Rel s t' := by
  induction h with
  | nil => exact ⟨t,nil,hstart⟩
  | @snoc labels s s' label _ hlast ih =>
    obtain ⟨t',hsteps,hrel⟩ := ih
    have hfollows := hstep s label s' t' hrel hlast
    rw [List.filterMap_append]
    cases hseen : seen label with
    | none =>
      rw [hseen] at hfollows
      rw [List.filterMap_cons_none hseen,List.filterMap_nil,List.append_nil]
      exact ⟨t',hsteps,hfollows⟩
    | some other =>
      rw [hseen] at hfollows
      obtain ⟨t'',hother,hrel'⟩ := hfollows
      rw [List.filterMap_cons_some hseen,List.filterMap_nil]
      exact ⟨t'',hsteps.snoc hother,hrel'⟩

theorem of_cons {start s : S} {label : L} {labels : List L} (h : Steps step start (label::labels) s) :
    ∃ t, step start label t ∧ Steps step t labels s := by
  generalize hall : label::labels = all at h
  induction h generalizing labels with
  | nil => cases hall
  | @snoc before s s' last hbefore hlast ih =>
    cases before with
    | nil =>
      obtain ⟨rfl,rfl⟩ := List.cons.inj hall
      obtain rfl := hbefore.of_nil
      exact ⟨s',hlast,nil⟩
    | cons first before =>
      obtain ⟨rfl,rfl⟩ := List.cons.inj hall
      obtain ⟨t,hfirst,hrest⟩ := ih rfl
      exact ⟨t,hfirst,hrest.snoc hlast⟩

end Steps
end KvIndex
