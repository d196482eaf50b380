import Mathlib.Tactic

/-! Last-writer-wins maps. A write carries its key and its position; it takes the
place of the current write of its key when its position is greater. The map after a
sequence of writes depends on the set of the writes only, as long as writes of one
key at one position agree. -/
namespace KvIndex
namespace LastWriter

variable {W K P : Type*} [DecidableEq K] [LinearOrder P] (key : W → K) (pos : W → P)

/-- Whether a write takes the place of the current one. -/
def wins (current : Option W) (w : W) : Prop := ∀ c ∈ current, pos c < pos w

instance (current : Option W) (w : W) : Decidable (wins pos current w) :=
  match current with
  | none => isTrue (by simp [wins])
  | some c => decidable_of_iff (pos c < pos w) (by simp [wins])

def write (state : K → Option W) (w : W) : K → Option W :=
  if wins pos (state (key w)) w then Function.update state (key w) (some w) else state

def position (state : K → Option W) (k : K) : WithBot P :=
  match state k with
  | none => ⊥
  | some w => (pos w : WithBot P)

/-- The greatest write of the key `k` among `S`. -/
structure IsLatest (S : Set W) (k : K) (w : W) : Prop where
  mem : w ∈ S
  key_eq : key w = k
  le : ∀ v ∈ S, key v = k → pos v ≤ pos w

/-- What the map holds for a key, when `S` are the writes made to it. -/
def Answers (S : Set W) (k : K) : Option W → Prop
  | none => ∀ v ∈ S, key v ≠ k
  | some w => IsLatest key pos S k w

variable {key pos}

theorem write_of_ne (state : K → Option W) {w : W} {k : K} (h : k ≠ key w) :
    write key pos state w k = state k := by
  rw [write]
  split_ifs
  · exact Function.update_of_ne h _ _
  · rfl

theorem write_self (state : K → Option W) (w : W) :
    write key pos state w (key w) = if wins pos (state (key w)) w then some w else state (key w) := by
  rw [write]
  split_ifs
  · exact Function.update_self _ _ _
  · rfl

theorem position_write_self (state : K → Option W) (w : W) :
    position pos (write key pos state w) (key w) = max (position pos state (key w)) (pos w) := by
  rw [position,write_self,position]
  cases hs : state (key w) with
  | none =>
    rw [if_pos (by simp [wins])]
    simp
  | some c =>
    by_cases hlt : pos c < pos w
    · rw [if_pos (by simpa [wins] using hlt)]
      exact (max_eq_right (WithBot.coe_le_coe.mpr hlt.le)).symm
    · rw [if_neg (by simpa [wins] using hlt)]
      exact (max_eq_left (WithBot.coe_le_coe.mpr (not_lt.mp hlt))).symm

theorem write_isSome (state : K → Option W) (w : W) : (write key pos state w (key w)).isSome := by
  rw [write_self]
  split_ifs with h
  · rfl
  · by_contra hnone
    apply h
    rw [Option.not_isSome_iff_eq_none.mp hnone]
    simp [wins]

theorem Answers.write {S : Set W} {state : K → Option W}
    (h : ∀ k, Answers key pos S k (state k)) (w : W) (k : K) :
    Answers key pos (insert w S) k (write key pos state w k) := by
  have hk := h k
  by_cases hkey : k = key w
  · subst hkey
    rw [write_self]
    cases hs : state (key w) with
    | none =>
      rw [hs] at hk
      rw [if_pos (by simp [wins])]
      refine ⟨Set.mem_insert _ _,rfl,?_⟩
      rintro v (rfl | hv) hvk
      · exact le_rfl
      · exact absurd hvk (hk v hv)
    | some c =>
      rw [hs] at hk
      by_cases hlt : pos c < pos w
      · rw [if_pos (by simpa [wins] using hlt)]
        refine ⟨Set.mem_insert _ _,rfl,?_⟩
        rintro v (rfl | hv) hvk
        · exact le_rfl
        · exact (hk.le v hv hvk).trans hlt.le
      · rw [if_neg (by simpa [wins] using hlt)]
        refine ⟨Set.mem_insert_of_mem _ hk.mem,hk.key_eq,?_⟩
        rintro v (rfl | hv) hvk
        · exact not_lt.mp hlt
        · exact hk.le v hv hvk
  · rw [write_of_ne _ hkey]
    cases hs : state k with
    | none =>
      rw [hs] at hk
      rintro v (rfl | hv) hvk
      · exact hkey hvk.symm
      · exact hk v hv hvk
    | some c =>
      rw [hs] at hk
      refine ⟨Set.mem_insert_of_mem _ hk.mem,hk.key_eq,?_⟩
      rintro v (rfl | hv) hvk
      · exact absurd hvk.symm hkey
      · exact hk.le v hv hvk

omit [DecidableEq K] in
/-- When writes of one key at one position agree on `f`, so do two answers for the same
writes. -/
theorem Answers.unique {V : Type*} {f : W → V} {S : Set W}
    (hagree : ∀ v ∈ S, ∀ w ∈ S, key v = key w → pos v = pos w → f v = f w) {k : K}
    {a b : Option W} (ha : Answers key pos S k a) (hb : Answers key pos S k b) :
    a.map f = b.map f := by
  cases a with
  | none =>
    cases b with
    | none => rfl
    | some w => exact absurd hb.key_eq (ha w hb.mem)
  | some v =>
    cases b with
    | none => exact absurd ha.key_eq (hb v ha.mem)
    | some w =>
      have hpos : pos v = pos w := le_antisymm (hb.le v ha.mem ha.key_eq) (ha.le w hb.mem hb.key_eq)
      rw [Option.map_some,Option.map_some,
        hagree v ha.mem w hb.mem (ha.key_eq.trans hb.key_eq.symm) hpos]

section Related

variable {V : Type*} {key' : V → K} {pos' : V → P} {R : W → V → Prop}

theorem wins_rel (hpos : ∀ w v, R w v → pos w = pos' v) {a : Option W} {b : Option V}
    (h : Option.Rel R a b) {w : W} {v : V} (hwv : R w v) : wins pos a w ↔ wins pos' b v := by
  cases h with
  | none => simp [wins]
  | some hab => simp [wins,hpos _ _ hab,hpos _ _ hwv]

theorem write_rel (hkey : ∀ w v, R w v → key w = key' v) (hpos : ∀ w v, R w v → pos w = pos' v)
    {s : K → Option W} {t : K → Option V} (h : ∀ k, Option.Rel R (s k) (t k)) {w : W} {v : V}
    (hwv : R w v) (k : K) : Option.Rel R (write key pos s w k) (write key' pos' t v k) := by
  by_cases hk : k = key w
  · subst hk
    rw [write_self,hkey w v hwv,write_self]
    have hcurrent := h (key' v)
    by_cases hwins : wins pos (s (key' v)) w
    · rw [if_pos hwins,if_pos ((wins_rel hpos hcurrent hwv).mp hwins)]
      exact Option.Rel.some hwv
    · rw [if_neg hwins,if_neg fun hv => hwins ((wins_rel hpos hcurrent hwv).mpr hv)]
      exact hcurrent
  · rw [write_of_ne _ hk,write_of_ne _ (hkey w v hwv ▸ hk)]
    exact h k

omit [DecidableEq K] [LinearOrder P] in
theorem exists_of_rel_some {w : W} {b : Option V} (h : Option.Rel R (some w) b) :
    ∃ v, R w v ∧ b = some v := by
  cases h with
  | some h => exact ⟨_,h,rfl⟩

theorem eq_none_of_rel {b : Option V} (h : Option.Rel R none b) : b = none := by
  cases h
  rfl

end Related

end LastWriter
end KvIndex
