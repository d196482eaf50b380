import Mathlib.Tactic

/-! Lists read as maps: an element answers for its key unless an earlier element
has the same key. Layered stores are concatenations, and a merge that skips the keys
it has already seen keeps the map. -/
namespace KvIndex
namespace FirstWins

variable {α K : Type*} [DecidableEq K] (key : α → K)

def find (l : List α) (k : K) : Option α := l.find? fun a => decide (key a = k)

/-- No two elements have the same key. -/
def Distinct (l : List α) : Prop := (l.map key).Nodup

def keepNew : List K → List α → List α
  | _, [] => []
  | seen, a::l =>
    if key a ∈ seen then keepNew seen l else a::keepNew (key a::seen) l

def replace (b : α) (l : List α) : List α := l.map fun a => if key a = key b then b else a

variable {key}

@[simp] theorem find_nil (k : K) : find key ([] : List α) k = none := rfl

theorem find_cons (a : α) (l : List α) (k : K) :
    find key (a::l) k = if key a = k then some a else find key l k := by
  by_cases h : key a = k
  · simp [find,h]
  · simp [find,h]

theorem find_append (l m : List α) (k : K) :
    find key (l++m) k = (find key l k).or (find key m k) := by
  simp [find,List.find?_append]

theorem find_eq_none {l : List α} {k : K} : find key l k = none ↔ ∀ a ∈ l, key a ≠ k := by
  simp [find]

theorem find_mem {l : List α} {k : K} {a : α} (h : find key l k = some a) : a ∈ l :=
  List.mem_of_find?_eq_some h

theorem find_key {l : List α} {k : K} {a : α} (h : find key l k = some a) : key a = k := by
  simpa using List.find?_some h

theorem find_of_mem {l : List α} (hd : Distinct key l) {a : α} (ha : a ∈ l) :
    find key l (key a) = some a := by
  induction l with
  | nil => cases ha
  | cons b l ih =>
    obtain ⟨hb,hl⟩ := List.nodup_cons.mp hd
    rw [find_cons]
    rcases List.mem_cons.mp ha with rfl | ha
    · rw [if_pos rfl]
    · have hne : key b ≠ key a := fun h => hb (h ▸ List.mem_map_of_mem ha)
      rw [if_neg hne,ih hl ha]

theorem find_eq_some {l : List α} (hd : Distinct key l) {k : K} {a : α} :
    find key l k = some a ↔ a ∈ l ∧ key a = k := by
  constructor
  · intro h
    exact ⟨find_mem h,find_key h⟩
  · rintro ⟨ha,rfl⟩
    exact find_of_mem hd ha

/-- With distinct keys the order of the elements does not matter. -/
theorem find_perm {l m : List α} (h : l.Perm m) (hd : Distinct key l) (k : K) :
    find key l k = find key m k := by
  have hdm : Distinct key m := (h.map key).nodup_iff.mp hd
  apply Option.ext
  intro a
  rw [find_eq_some hd,find_eq_some hdm,h.mem_iff]

/-- Two lists of distinct keys that answer alike have the same elements. -/
theorem perm_of_find {l m : List α} (hl : Distinct key l) (hm : Distinct key m)
    (h : ∀ k, find key l k = find key m k) : l.Perm m := by
  refine (List.perm_ext_iff_of_nodup hl.of_map hm.of_map).mpr fun a => ?_
  have ha := find_eq_some hl (k := key a) (a := a)
  have hb := find_eq_some hm (k := key a) (a := a)
  rw [and_iff_left rfl] at ha hb
  rw [← ha,← hb,h]

theorem find_map {β : Type*} {key' : β → K} (f : α → β) (hf : ∀ a, key' (f a) = key a)
    (l : List α) (k : K) : find key' (l.map f) k = (find key l k).map f := by
  induction l with
  | nil => rfl
  | cons a l ih =>
    rw [List.map_cons,find_cons,find_cons,hf,ih]
    by_cases h : key a = k
    · simp [h]
    · simp [h]

theorem map_key_replace (b : α) (l : List α) : (replace key b l).map key = l.map key := by
  rw [replace,List.map_map]
  apply List.map_congr_left
  intro a _
  by_cases h : key a = key b
  · simp [h]
  · simp [h]

theorem distinct_replace {b : α} {l : List α} (hd : Distinct key l) :
    Distinct key (replace key b l) := by
  rw [Distinct,map_key_replace]
  exact hd

theorem find_replace (b : α) (l : List α) (k : K) :
    find key (replace key b l) k =
      if k = key b then (find key l k).map fun _ => b else find key l k := by
  induction l with
  | nil => simp [replace]
  | cons a l ih =>
    rw [replace,List.map_cons,← replace,find_cons,find_cons,ih]
    by_cases hk : k = key b
    · by_cases ha : key a = key b
      · simp [hk,ha]
      · simp [hk,ha]
    · by_cases ha : key a = key b
      · have hne : key b ≠ k := fun h => hk h.symm
        simp [hk,ha,hne]
      · simp [hk,ha]

theorem mem_of_mem_keepNew {seen : List K} {l : List α} {a : α} (h : a ∈ keepNew key seen l) :
    a ∈ l ∧ key a ∉ seen := by
  induction l generalizing seen with
  | nil => cases h
  | cons b l ih =>
    rw [keepNew] at h
    split_ifs at h with hb
    · obtain ⟨h1,h2⟩ := ih h
      exact ⟨List.mem_cons_of_mem _ h1,h2⟩
    · rcases List.mem_cons.mp h with rfl | h
      · exact ⟨List.mem_cons_self,hb⟩
      · obtain ⟨h1,h2⟩ := ih h
        exact ⟨List.mem_cons_of_mem _ h1,fun hs => h2 (List.mem_cons_of_mem _ hs)⟩

/-- Skipping seen keys answers as the whole list does, for every key not seen before. -/
theorem find_keepNew {seen : List K} (l : List α) {k : K} (hk : k ∉ seen) :
    find key (keepNew key seen l) k = find key l k := by
  induction l generalizing seen with
  | nil => rfl
  | cons a l ih =>
    rw [keepNew,find_cons]
    by_cases ha : key a ∈ seen
    · have hne : key a ≠ k := fun h => hk (h ▸ ha)
      rw [if_pos ha,if_neg hne,ih hk]
    · rw [if_neg ha,find_cons]
      by_cases hak : key a = k
      · rw [if_pos hak,if_pos hak]
      · rw [if_neg hak,if_neg hak]
        apply ih
        rw [List.mem_cons,not_or]
        exact ⟨fun h => hak h.symm,hk⟩

/-- Two layers merged by skipping the keys of the upper one answer as the layers do. -/
theorem find_merge {upper lower : List α} {seen : List K}
    (hseen : ∀ k, k ∈ seen ↔ k ∈ upper.map key) (k : K) :
    find key (keepNew key [] upper++keepNew key seen lower) k =
      (find key upper k).or (find key lower k) := by
  rw [find_append,find_keepNew upper (by simp)]
  cases hu : find key upper k with
  | some a => rfl
  | none =>
    have hk : k ∉ seen := by
      intro hmem
      obtain ⟨a,ha,hak⟩ := List.mem_map.mp ((hseen k).mp hmem)
      exact find_eq_none.mp hu a ha hak
    rw [find_keepNew lower hk]

end FirstWins
end KvIndex
