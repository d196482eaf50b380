import Mathlib.Tactic

/-! Fixed-width little-endian words inside byte strings. A word is read from and
written to a window of a byte string; reads see exactly the last write to their
window and are untouched by writes to a disjoint one. -/
namespace KvIndex
namespace LittleEndian

/-- The number spelled by a byte string, least significant byte first. -/
def value : List UInt8 → ℕ
  | [] => 0
  | b::bs => b.toNat+256*value bs

/-- The `w` low bytes of a number, least significant byte first. -/
def digits : ℕ → ℕ → List UInt8
  | 0, _ => []
  | w+1, n => UInt8.ofNat (n%256) :: digits w (n/256)

@[simp] theorem digits_length (w n : ℕ) : (digits w n).length = w := by
  induction w generalizing n with
  | zero => rfl
  | succ w ih => simp [digits,ih]

theorem value_digits (w n : ℕ) : value (digits w n) = n%256^w := by
  induction w generalizing n with
  | zero => simp [digits,value,Nat.mod_one]
  | succ w ih =>
    have hb : (UInt8.ofNat (n%256)).toNat = n%256 := by
      rw [UInt8.toNat_ofNat']
      exact Nat.mod_eq_of_lt (Nat.mod_lt _ (by norm_num))
    simp only [digits,value,hb,ih]
    rw [pow_succ',Nat.mod_mul]

theorem value_lt (bs : List UInt8) : value bs < 256^bs.length := by
  induction bs with
  | nil => simp [value]
  | cons b bs ih =>
    have hb := b.toNat_lt
    simp only [value,List.length_cons,pow_succ']
    omega

theorem digits_value (bs : List UInt8) : digits bs.length (value bs) = bs := by
  induction bs with
  | nil => rfl
  | cons b bs ih =>
    have hb := b.toNat_lt
    have hm : (b.toNat+256*value bs)%256 = b.toNat := by omega
    have hd : (b.toNat+256*value bs)/256 = value bs := by omega
    simp [digits,value,hm,hd,ih]

/-- The window of `w` bytes starting at `o`, cut short at the end of the string. -/
def slice (bs : List UInt8) (o w : ℕ) : List UInt8 := (bs.drop o).take w

@[simp] theorem slice_length (bs : List UInt8) (o w : ℕ) :
    (slice bs o w).length = min w (bs.length-o) := by simp [slice]

theorem slice_getElem? (bs : List UInt8) (o w i : ℕ) (hi : i < w) :
    (slice bs o w)[i]? = bs[o+i]? := by
  simp [slice,hi,List.getElem?_drop]

/-- A window depends on nothing but the bytes at its own positions. -/
theorem slice_congr {as bs : List UInt8} {o w : ℕ} (h : ∀ i < w, as[o+i]? = bs[o+i]?) :
    slice as o w = slice bs o w := by
  apply List.ext_getElem?
  intro i
  rcases Nat.lt_or_ge i w with hi | hi
  · rw [slice_getElem? as o w i hi,slice_getElem? bs o w i hi,h i hi]
  · rw [List.getElem?_eq_none (by simp; omega),List.getElem?_eq_none (by simp; omega)]

theorem slice_slice {bs : List UInt8} {o w i v : ℕ} (h : i+v ≤ w) :
    slice (slice bs o w) i v = slice bs (o+i) v := by
  apply List.ext_getElem?
  intro j
  rcases Nat.lt_or_ge j v with hj | hj
  · rw [slice_getElem? _ _ _ _ hj,slice_getElem? _ _ _ _ hj,slice_getElem? _ _ _ _ (by omega),
      Nat.add_assoc]
  · rw [List.getElem?_eq_none (by simp; omega),List.getElem?_eq_none (by simp; omega)]

/-- The window that a middle part occupies in a concatenation is that part. -/
@[simp] theorem slice_middle (pre mid post : List UInt8) :
    slice (pre++(mid++post)) pre.length mid.length = mid := by simp [slice]

theorem slice_append_left {bs post : List UInt8} {o w : ℕ} (h : o+w ≤ bs.length) :
    slice (bs++post) o w = slice bs o w := by
  apply slice_congr
  intro i hi
  exact List.getElem?_append_left (by omega)

/-- Overwrite the window at `o` by the bytes `ws`. -/
def splice (bs : List UInt8) (o : ℕ) (ws : List UInt8) : List UInt8 :=
  bs.take o ++ (ws ++ bs.drop (o+ws.length))

@[simp] theorem splice_length (bs : List UInt8) (o : ℕ) (ws : List UInt8)
    (h : o+ws.length ≤ bs.length) : (splice bs o ws).length = bs.length := by
  simp [splice]; omega

theorem splice_getElem?_inside (bs : List UInt8) (o : ℕ) (ws : List UInt8) (i : ℕ)
    (h : o+ws.length ≤ bs.length) (hi : i < ws.length) :
    (splice bs o ws)[o+i]? = ws[i]? := by
  have ho : (bs.take o).length = o := by simp; omega
  rw [splice,List.getElem?_append_right (by omega),ho]
  rw [List.getElem?_append_left (by omega)]
  congr 1
  omega

theorem splice_getElem?_outside (bs : List UInt8) (o : ℕ) (ws : List UInt8) (i : ℕ)
    (h : o+ws.length ≤ bs.length) (hi : i < o ∨ o+ws.length ≤ i) :
    (splice bs o ws)[i]? = bs[i]? := by
  have ho : (bs.take o).length = o := by simp; omega
  rcases hi with hi | hi
  · rw [splice,List.getElem?_append_left (by omega),List.getElem?_take_of_lt hi]
  · rw [splice,List.getElem?_append_right (by omega),ho,
      List.getElem?_append_right (by omega),List.getElem?_drop]
    congr 1
    omega

theorem slice_splice_same (bs : List UInt8) (o : ℕ) (ws : List UInt8)
    (h : o+ws.length ≤ bs.length) : slice (splice bs o ws) o ws.length = ws := by
  apply List.ext_getElem?
  intro i
  rcases Nat.lt_or_ge i ws.length with hi | hi
  · rw [slice_getElem? _ _ _ _ hi,splice_getElem?_inside bs o ws i h hi]
  · rw [List.getElem?_eq_none (by simp [h]; omega),List.getElem?_eq_none hi]

theorem slice_splice_disjoint (bs : List UInt8) (o : ℕ) (ws : List UInt8) (o' w : ℕ)
    (h : o+ws.length ≤ bs.length) (hd : o'+w ≤ o ∨ o+ws.length ≤ o') :
    slice (splice bs o ws) o' w = slice bs o' w := by
  apply slice_congr
  intro i hi
  exact splice_getElem?_outside bs o ws (o'+i) h (by omega)

theorem splice_splice_append (bs : List UInt8) (o : ℕ) (vs ws : List UInt8)
    (h : o+vs.length+ws.length ≤ bs.length) :
    splice (splice bs o vs) (o+vs.length) ws = splice bs o (vs++ws) := by
  have ho : (bs.take o).length = o := by
    rw [List.length_take]
    omega
  have htake : (splice bs o vs).take (o+vs.length) = bs.take o++vs := by
    rw [splice,← List.append_assoc]
    exact List.take_left' (by rw [List.length_append,ho])
  have hdrop : (splice bs o vs).drop (o+vs.length+ws.length) = bs.drop (o+(vs++ws).length) := by
    rw [splice,← List.append_assoc,← List.drop_drop,List.drop_left' (by rw [List.length_append,ho]),
      List.drop_drop,List.length_append,Nat.add_assoc]
  rw [splice,htake,hdrop,splice]
  simp only [List.append_assoc]

theorem set_eq_splice {bs : List UInt8} {o : ℕ} (h : o < bs.length) (b : UInt8) :
    bs.set o b = splice bs o [b] := by
  rw [splice,List.set_eq_take_append_cons_drop,if_pos h]
  rfl

def spliceAll (bs : List UInt8) (ws : List (ℕ×List UInt8)) : List UInt8 :=
  ws.foldl (fun bs w => splice bs w.1 w.2) bs

theorem spliceAll_length {bs : List UInt8} {ws : List (ℕ×List UInt8)}
    (h : ∀ w ∈ ws, w.1+w.2.length ≤ bs.length) : (spliceAll bs ws).length = bs.length := by
  induction ws generalizing bs with
  | nil => rfl
  | cons w ws ih =>
    have hw := splice_length bs w.1 w.2 (h w List.mem_cons_self)
    rw [spliceAll,List.foldl_cons,← spliceAll,ih,hw]
    intro v hv
    rw [hw]
    exact h v (List.mem_cons_of_mem _ hv)

theorem spliceAll_getElem?_outside {bs : List UInt8} {ws : List (ℕ×List UInt8)} {i : ℕ}
    (h : ∀ w ∈ ws, w.1+w.2.length ≤ bs.length)
    (hi : ∀ w ∈ ws, i < w.1 ∨ w.1+w.2.length ≤ i) : (spliceAll bs ws)[i]? = bs[i]? := by
  induction ws generalizing bs with
  | nil => rfl
  | cons w ws ih =>
    have hin := h w List.mem_cons_self
    rw [spliceAll,List.foldl_cons,← spliceAll,ih]
    · exact splice_getElem?_outside bs w.1 w.2 i hin (hi w List.mem_cons_self)
    · intro v hv
      rw [splice_length bs w.1 w.2 hin]
      exact h v (List.mem_cons_of_mem _ hv)
    · exact fun v hv => hi v (List.mem_cons_of_mem _ hv)

theorem slice_spliceAll {bs : List UInt8} {ws : List (ℕ×List UInt8)}
    (h : ∀ w ∈ ws, w.1+w.2.length ≤ bs.length)
    (hd : ws.Pairwise fun v w => v.1+v.2.length ≤ w.1) {w : ℕ×List UInt8} (hw : w ∈ ws) :
    slice (spliceAll bs ws) w.1 w.2.length = w.2 := by
  induction ws generalizing bs with
  | nil => cases hw
  | cons v ws ih =>
    obtain ⟨hv,hrest⟩ := List.pairwise_cons.mp hd
    have hin := h v List.mem_cons_self
    have hlen : ∀ u ∈ ws, u.1+u.2.length ≤ (splice bs v.1 v.2).length := by
      intro u hu
      rw [splice_length bs v.1 v.2 hin]
      exact h u (List.mem_cons_of_mem _ hu)
    rw [spliceAll,List.foldl_cons,← spliceAll]
    rcases List.mem_cons.mp hw with rfl | hw
    · have hkeep : slice (spliceAll (splice bs w.1 w.2) ws) w.1 w.2.length =
          slice (splice bs w.1 w.2) w.1 w.2.length := by
        apply slice_congr
        intro i hi
        apply spliceAll_getElem?_outside hlen
        intro u hu
        have hvu := hv u hu
        omega
      rw [hkeep,slice_splice_same bs w.1 w.2 hin]
    · exact ih hlen hrest hw

/-- The string from position `o` on under windows that ascend, in one pass. -/
def overlay : ℕ → List UInt8 → List (ℕ×List UInt8) → List UInt8
  | _, bs, [] => bs
  | o, bs, w::ws =>
    bs.take (w.1-o)++(w.2++overlay (w.1+w.2.length) (bs.drop (w.1-o+w.2.length)) ws)

/-- A write behind the first part of a concatenation leaves that part. -/
theorem splice_append_right {pre bs : List UInt8} {o : ℕ} {ws : List UInt8} (h : pre.length ≤ o) :
    splice (pre++bs) o ws =
      (pre++(bs.take (o-pre.length)++ws))++bs.drop (o-pre.length+ws.length) := by
  have hgap : o+ws.length-pre.length = o-pre.length+ws.length := by omega
  rw [splice,List.take_append,List.drop_append,List.take_of_length_le h,
    List.drop_of_length_le (show pre.length ≤ o+ws.length by omega),hgap]
  simp only [List.nil_append,List.append_assoc]

theorem spliceAll_append_right {pre bs : List UInt8} {ws : List (ℕ×List UInt8)}
    (hs : ∀ w ∈ ws, pre.length ≤ w.1) (h : ∀ w ∈ ws, w.1+w.2.length ≤ (pre++bs).length)
    (hd : ws.Pairwise fun v w => v.1+v.2.length ≤ w.1) :
    spliceAll (pre++bs) ws = pre++overlay pre.length bs ws := by
  induction ws generalizing pre bs with
  | nil => rfl
  | cons w ws ih =>
    obtain ⟨hw,hrest⟩ := List.pairwise_cons.mp hd
    have hstart := hs w List.mem_cons_self
    have hin := h w List.mem_cons_self
    have hsplice : splice (pre++bs) w.1 w.2 = _ := splice_append_right hstart
    have hlen : (pre++(bs.take (w.1-pre.length)++w.2)).length = w.1+w.2.length := by
      rw [List.length_append] at hin
      simp only [List.length_append,List.length_take]
      omega
    rw [spliceAll,List.foldl_cons,← spliceAll,hsplice,ih ?_ ?_ hrest,hlen,overlay]
    · simp only [List.append_assoc]
    · intro v hv
      rw [hlen]
      exact hw v hv
    · intro v hv
      rw [← hsplice,splice_length _ _ _ hin]
      exact h v (List.mem_cons_of_mem _ hv)

theorem spliceAll_eq_overlay {bs : List UInt8} {ws : List (ℕ×List UInt8)}
    (h : ∀ w ∈ ws, w.1+w.2.length ≤ bs.length)
    (hd : ws.Pairwise fun v w => v.1+v.2.length ≤ w.1) : spliceAll bs ws = overlay 0 bs ws :=
  @spliceAll_append_right [] bs ws (fun _ _ => Nat.zero_le _) h hd

end LittleEndian
end KvIndex
