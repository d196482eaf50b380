import Mathlib.Tactic

/-! Codes whose words can be cut off from the front of a text: what follows a code word tells
nothing of the value. Such codes are put together from words of a fixed width and counted
lists. -/
namespace KvIndex

/-- A text that starts with the word of a valid value starts with the word of no other one. -/
def PrefixCode {α β : Type} (Valid : α → Prop) (encode : α → List β) : Prop :=
  ∀ ⦃a b : α⦄, Valid a → Valid b → ∀ ⦃s t : List β⦄, encode a++s = encode b++t → a = b ∧ s = t

namespace PrefixCode

variable {α β γ : Type} {Valid : α → Prop} {encode : α → List β}

theorem of_width {width : ℕ} (hwidth : ∀ a, (encode a).length = width)
    (hinj : ∀ a b, Valid a → Valid b → encode a = encode b → a = b) : PrefixCode Valid encode := by
  intro a b ha hb s t h
  obtain ⟨hword,hrest⟩ := List.append_inj h ((hwidth a).trans (hwidth b).symm)
  exact ⟨hinj a b ha hb hword,hrest⟩

theorem mono {Valid' : α → Prop} (h : PrefixCode Valid encode) (hvalid : ∀ a, Valid' a → Valid a) :
    PrefixCode Valid' encode :=
  fun _ _ ha hb _ _ heq => h (hvalid _ ha) (hvalid _ hb) heq

theorem comap (h : PrefixCode Valid encode) {part : γ → α} {Valid' : γ → Prop}
    (hvalid : ∀ c, Valid' c → Valid (part c))
    (hinj : ∀ c d, Valid' c → Valid' d → part c = part d → c = d) :
    PrefixCode Valid' fun c => encode (part c) := by
  intro c d hc hd s t heq
  obtain ⟨hpart,hrest⟩ := h (hvalid c hc) (hvalid d hd) heq
  exact ⟨hinj c d hc hd hpart,hrest⟩

theorem flatMap (h : PrefixCode Valid encode) {as bs : List α} (hlength : as.length = bs.length)
    (has : ∀ a ∈ as, Valid a) (hbs : ∀ b ∈ bs, Valid b) {s t : List β}
    (heq : as.flatMap encode++s = bs.flatMap encode++t) : as = bs ∧ s = t := by
  induction as generalizing bs with
  | nil =>
    rw [List.length_nil,eq_comm,List.length_eq_zero_iff] at hlength
    subst hlength
    exact ⟨rfl,heq⟩
  | cons a as ih =>
    cases bs with
    | nil => cases hlength
    | cons b bs =>
      rw [List.flatMap_cons,List.flatMap_cons,List.append_assoc,List.append_assoc] at heq
      obtain ⟨rfl,hrest⟩ := h (has a List.mem_cons_self) (hbs b List.mem_cons_self) heq
      obtain ⟨rfl,hend⟩ := ih (Nat.succ.inj hlength) (fun c hc => has c (List.mem_cons_of_mem _ hc))
        (fun c hc => hbs c (List.mem_cons_of_mem _ hc)) hrest
      exact ⟨rfl,hend⟩

theorem counted {ValidCount : ℕ → Prop} {count : ℕ → List β} (hcount : PrefixCode ValidCount count)
    (h : PrefixCode Valid encode) :
    PrefixCode (fun as : List α => ValidCount as.length ∧ ∀ a ∈ as, Valid a)
      fun as => count as.length++as.flatMap encode := by
  intro as bs has hbs s t heq
  rw [List.append_assoc,List.append_assoc] at heq
  obtain ⟨hlength,hrest⟩ := hcount has.1 hbs.1 heq
  exact h.flatMap hlength has.2 hbs.2 hrest

end PrefixCode
end KvIndex
