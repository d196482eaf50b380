import Mathlib.Tactic

/-! Open addressing over an arbitrary probe sequence. A table is seen only through
the keys in its slots: `occ s = some k` when slot `s` holds `k`, and `occ s = none`
where a probe stops. `probe k j` is the slot of the `j`-th probe for `k`, and a
search makes at most `n` probes. -/
namespace KvIndex
namespace Probing

variable {K : Type*} {probe : K → ℕ → ℕ} {n : ℕ} {occ : ℕ → Option K}

/-- Every stored key sits on its own probe sequence behind occupied slots only,
and no key is stored twice. -/
structure Placed (probe : K → ℕ → ℕ) (n : ℕ) (occ : ℕ → Option K) : Prop where
  reach : ∀ {s : ℕ} {k : K}, occ s = some k →
    ∃ j < n, probe k j = s ∧ ∀ i < j, (occ (probe k i)).isSome
  unique : ∀ {s t : ℕ} {k : K}, occ s = some k → occ t = some k → s = t

theorem placed_empty : Placed probe n (fun _ => none) where
  reach h := by simp at h
  unique h := by simp at h

/-- A search for a stored key passes other keys only and ends on the key's slot. -/
theorem Placed.first_hit (hp : Placed probe n occ) {s : ℕ} {k : K} (hs : occ s = some k) :
    ∃ j < n, probe k j = s ∧ ∀ i < j, ∃ k', occ (probe k i) = some k' ∧ k' ≠ k := by
  classical
  obtain ⟨j,hj,hjs,hocc⟩ := hp.reach hs
  have hex : ∃ i, probe k i = s := ⟨j,hjs⟩
  have hle : Nat.find hex ≤ j := Nat.find_min' hex hjs
  refine ⟨Nat.find hex,by omega,Nat.find_spec hex,?_⟩
  intro i hi
  obtain ⟨k',hk'⟩ := Option.isSome_iff_exists.mp (hocc i (by omega))
  refine ⟨k',hk',?_⟩
  rintro rfl
  exact Nat.find_min hex hi (hp.unique hk' hs)

/-- Storing a fresh key in the first free slot of its probe sequence. -/
theorem Placed.insert (hp : Placed probe n occ) {k : K} (hk : ∀ s, occ s ≠ some k)
    {j : ℕ} (hj : j < n) (hbusy : ∀ i < j, (occ (probe k i)).isSome) :
    Placed probe n (Function.update occ (probe k j) (some k)) where
  reach := by
    intro s k' hs
    rcases eq_or_ne s (probe k j) with rfl | hne
    · rw [Function.update_self,Option.some.injEq] at hs
      subst hs
      refine ⟨j,hj,rfl,fun i hi => ?_⟩
      simp only [Function.update_apply]
      split_ifs
      · rfl
      · exact hbusy i hi
    · rw [Function.update_of_ne hne] at hs
      obtain ⟨i,hi,his,hocc⟩ := hp.reach hs
      refine ⟨i,hi,his,fun l hl => ?_⟩
      simp only [Function.update_apply]
      split_ifs
      · rfl
      · exact hocc l hl
  unique := by
    intro s t k' hs ht
    simp only [Function.update_apply] at hs ht
    split_ifs at hs ht with h1 h2 h2
    · exact h1.trans h2.symm
    · cases hs
      exact absurd ht (hk t)
    · cases ht
      exact absurd hs (hk s)
    · exact hp.unique hs ht

/-- A probe sequence that covers a free slot finds a first free one. -/
theorem exists_first_free (probe : K → ℕ → ℕ) {k : K} {j : ℕ} (hj : j < n)
    (hfree : occ (probe k j) = none) :
    ∃ i < n, occ (probe k i) = none ∧ ∀ l < i, (occ (probe k l)).isSome := by
  classical
  have hex : ∃ i, occ (probe k i) = none := ⟨j,hfree⟩
  have hle : Nat.find hex ≤ j := Nat.find_min' hex hfree
  refine ⟨Nat.find hex,by omega,Nat.find_spec hex,fun l hl => ?_⟩
  exact Option.isSome_iff_ne_none.mpr (Nat.find_min hex hl)

/-- The number of occupied slots among the first `n`. -/
def load (n : ℕ) (occ : ℕ → Option K) : ℕ := (List.range n).countP fun s => (occ s).isSome

theorem exists_free_of_load_lt (h : load n occ < n) : ∃ s < n, occ s = none := by
  by_contra hno
  push Not at hno
  have hall : load n occ = n := by
    rw [load,List.countP_eq_length.mpr]
    · simp
    · intro s hs
      exact Option.isSome_iff_ne_none.mpr (hno s (List.mem_range.mp hs))
  omega

theorem load_update (s : ℕ) (hs : s < n) (k : K) (hfree : occ s = none) :
    load n (Function.update occ s (some k)) = load n occ+1 := by
  have hp : (List.range n).Perm (s :: (List.range n).erase s) :=
    List.perm_cons_erase (List.mem_range.mpr hs)
  have hrest : ∀ t ∈ (List.range n).erase s, Function.update occ s (some k) t = occ t := by
    intro t ht
    have hne : t ≠ s := ((List.nodup_range).mem_erase_iff.mp ht).1
    exact Function.update_of_ne hne _ _
  unfold load
  rw [hp.countP_eq,hp.countP_eq,List.countP_cons,List.countP_cons]
  have hc : ((List.range n).erase s).countP (fun t => (Function.update occ s (some k) t).isSome) =
      ((List.range n).erase s).countP (fun t => (occ t).isSome) := by
    apply List.countP_congr
    intro t ht
    rw [hrest t ht]
  simp [hc,hfree]

/-- No more slots are occupied than there are keys to occupy them. -/
theorem Placed.load_le_card [DecidableEq K] (hp : Placed probe n occ) (S : Finset K)
    (hS : ∀ {s k}, occ s = some k → k ∈ S) : load n occ ≤ S.card := by
  classical
  have hcount : load n occ = ((Finset.range n).filter fun s => (occ s).isSome).card := by
    simp [load,List.countP_eq_length_filter,Finset.card,Finset.range,Finset.filter,
      Multiset.range]
  rw [hcount]
  rcases S.eq_empty_or_nonempty with rfl | ⟨k₀,hk₀⟩
  · rw [Finset.card_empty,Nat.le_zero,Finset.card_eq_zero,Finset.filter_eq_empty_iff]
    intro s _ hs
    obtain ⟨k,hk⟩ := Option.isSome_iff_exists.mp hs
    exact absurd (hS hk) (by simp)
  · apply Finset.card_le_card_of_injOn (fun s => (occ s).getD k₀)
    · intro s hs
      obtain ⟨k,hk⟩ := Option.isSome_iff_exists.mp (Finset.mem_filter.mp hs).2
      simpa [hk] using hS hk
    · intro s hs t ht hst
      obtain ⟨k,hk⟩ := Option.isSome_iff_exists.mp (Finset.mem_filter.mp hs).2
      obtain ⟨k',hk'⟩ := Option.isSome_iff_exists.mp (Finset.mem_filter.mp ht).2
      simp only [hk,hk',Option.getD_some] at hst
      subst hst
      exact hp.unique hk hk'

theorem exists_probe_of_linear {h s : ℕ} (hs : s < n) : ∃ j < n, (h+j)%n = s := by
  have hn : 0 < n := by omega
  refine ⟨(s+(n-h%n))%n,Nat.mod_lt _ hn,?_⟩
  have hh := Nat.mod_lt h hn
  rw [Nat.add_mod_mod]
  have hsum : h+(s+(n-h%n)) = s+n*(h/n+1) := by
    have hdm := Nat.div_add_mod h n
    rw [Nat.mul_add,Nat.mul_one]
    omega
  rw [hsum,Nat.add_mul_mod_self_left,Nat.mod_eq_of_lt hs]

end Probing
end KvIndex
