import KvIndex.LittleEndian

/-! Readers that walk over a byte string with a cursor. `Reads p enc a` says that `p`
reads `a` wherever the bytes `enc` stand, and moves the cursor just behind them; the
rules compose it along sequences and counted loops. `Spelled` is the way back, from a run
that succeeded to the bytes it has read. -/
namespace KvIndex

/-- A computation over a fixed byte string that moves a cursor. -/
def ByteReader (ε α : Type) := List UInt8 → ℕ → Except ε (α×ℕ)

namespace ByteReader

variable {ε α β σ : Type}

instance : Monad (ByteReader ε) where
  pure a := fun _ cursor => .ok (a,cursor)
  bind p f := fun bytes cursor =>
    match p bytes cursor with
    | .error e => .error e
    | .ok (a,cursor) => f a bytes cursor

def fail (e : ε) : ByteReader ε α := fun _ _ => .error e

/-- Give up when the condition on the bytes and the cursor holds. -/
def failWhen (bad : List UInt8 → ℕ → Bool) (e : ε) : ByteReader ε Unit := fun bytes cursor =>
  if bad bytes cursor then .error e else .ok ((),cursor)

def lift (x : Except ε α) : ByteReader ε α := fun _ cursor => x.map fun a => (a,cursor)

def take (count : ℕ) : ByteReader ε (List UInt8) := fun bytes cursor =>
  .ok (LittleEndian.slice bytes cursor count,cursor+count)

def iterate : ℕ → (σ → ByteReader ε σ) → σ → ByteReader ε σ
  | 0, _, s => pure s
  | n+1, body, s => do
    let s ← body s
    iterate n body s

def many : ℕ → ByteReader ε α → ByteReader ε (List α)
  | 0, _ => pure []
  | n+1, p => do
    let a ← p
    let as ← many n p
    return a::as

/-- Once the first reader has succeeded, the second one goes on at its cursor. -/
theorem bind_of_ok {p : ByteReader ε α} {f : α → ByteReader ε β} {bytes : List UInt8}
    {cursor cursor' : ℕ} {a : α} (h : p bytes cursor = .ok (a,cursor')) :
    (p >>= f) bytes cursor = f a bytes cursor' := by
  simp only [Bind.bind,h]

def Reads (p : ByteReader ε α) (enc : List UInt8) (a : α) : Prop :=
  ∀ pre post : List UInt8, p (pre++(enc++post)) pre.length = .ok (a,pre.length+enc.length)

theorem Reads.pure (a : α) : Reads (Pure.pure a : ByteReader ε α) [] a := by
  intro pre post
  rfl

theorem Reads.bind {p : ByteReader ε α} {f : α → ByteReader ε β} {enc enc' : List UInt8} {a : α}
    {b : β} (hp : Reads p enc a) (hf : Reads (f a) enc' b) : Reads (p >>= f) (enc++enc') b := by
  intro pre post
  have h1 := hp pre (enc'++post)
  have h2 := hf (pre++enc) post
  rw [List.append_assoc,List.length_append] at h2
  rw [List.append_assoc enc,bind_of_ok h1,h2,List.length_append,Nat.add_assoc]

theorem Reads.bind_nil {p : ByteReader ε α} {f : α → ByteReader ε β} {enc : List UInt8} {a : α}
    {b : β} (hp : Reads p enc a) (hf : Reads (f a) [] b) : Reads (p >>= f) enc b := by
  have hall := hp.bind hf
  rwa [List.append_nil] at hall

theorem Reads.map {p : ByteReader ε α} {enc : List UInt8} {a : α} (hp : Reads p enc a) (g : α → β) :
    Reads (p >>= fun x => Pure.pure (g x)) enc (g a) :=
  hp.bind_nil (Reads.pure (g a))

theorem Reads.assoc {γ : Type} {p : ByteReader ε α} {f : α → ByteReader ε β}
    {g : β → ByteReader ε γ} {enc : List UInt8} {c : γ} (h : Reads (p >>= f >>= g) enc c) :
    Reads (p >>= fun a => f a >>= g) enc c := by
  intro pre post
  have hpost := h pre post
  simp only [Bind.bind] at hpost ⊢
  cases hp : p (pre++(enc++post)) pre.length with
  | error e =>
    rw [hp] at hpost
    exact hpost
  | ok result =>
    rw [hp] at hpost
    exact hpost

theorem Reads.lift {x : Except ε α} {a : α} (h : x = .ok a) : Reads (lift x) [] a := by
  subst h
  intro pre post
  rfl

theorem Reads.take (bs : List UInt8) : Reads (ByteReader.take bs.length : ByteReader ε _) bs bs := by
  intro pre post
  rw [ByteReader.take,LittleEndian.slice_middle]

theorem Reads.failWhen_bind {bad : List UInt8 → ℕ → Bool} {e : ε} {p : ByteReader ε α}
    {enc : List UInt8} {a : α} (hp : Reads p enc a)
    (hbad : ∀ bytes cursor, cursor+enc.length ≤ bytes.length → bad bytes cursor = false) :
    Reads (failWhen bad e >>= fun _ => p) enc a := by
  intro pre post
  have hok : bad (pre++(enc++post)) pre.length = false := by
    apply hbad
    simp only [List.length_append]
    omega
  have hcheck : failWhen bad e (pre++(enc++post)) pre.length = .ok ((),pre.length) := by
    rw [failWhen,hok]
    rfl
  rw [bind_of_ok hcheck,hp pre post]

/-- A counted loop reads as many values as their encodings stand one behind the other. -/
theorem Reads.many {p : ByteReader ε α} {Encodes : α → List UInt8 → Prop} {values : List α}
    {parts : List (List UInt8)} (h : List.Forall₂ Encodes values parts)
    (hread : ∀ a enc, Encodes a enc → Reads p enc a) :
    Reads (many values.length p) parts.flatten values := by
  induction h with
  | nil => exact Reads.pure []
  | @cons a part values parts hpart _ ih =>
    refine (hread a part hpart).bind ?_
    exact ih.map fun as => a::as

/-- A loop that reads one element a round, with the states it passes through. -/
theorem Reads.iterate {body : σ → ByteReader ε σ} {Encodes : α → List UInt8 → Prop}
    (next : σ → α → σ) {todo : List α} {parts : List (List UInt8)} (s : σ)
    (h : List.Forall₂ Encodes todo parts)
    (hread : ∀ done a rest enc, todo = done++a::rest → Encodes a enc →
      Reads (body (done.foldl next s)) enc (next (done.foldl next s) a)) :
    Reads (iterate todo.length body s) parts.flatten (todo.foldl next s) := by
  induction h generalizing s with
  | nil => exact Reads.pure s
  | @cons a part todo parts hpart _ ih =>
    have hfirst := hread [] a todo part rfl hpart
    refine hfirst.bind (ih (next s a) ?_)
    intro done b rest enc hsplit hb
    exact hread (a::done) b rest enc (by rw [hsplit,List.cons_append]) hb

theorem bind_returns {p : ByteReader ε α} {f : α → ByteReader ε β} {bytes : List UInt8} {cursor : ℕ}
    {result : β×ℕ} :
    (p >>= f) bytes cursor = .ok result ↔
      ∃ a next, p bytes cursor = .ok (a,next) ∧ f a bytes next = .ok result := by
  simp only [Bind.bind]
  cases p bytes cursor with
  | error e => simp
  | ok first => simp [Prod.ext_iff]

theorem lift_returns {x : Except ε α} {bytes : List UInt8} {cursor next : ℕ} {a : α} :
    lift x bytes cursor = .ok (a,next) ↔ x = .ok a ∧ next = cursor := by
  cases x with
  | error e => simp [lift,Except.map]
  | ok b => simp [lift,Except.map,eq_comm]

theorem pure_returns {bytes : List UInt8} {cursor next : ℕ} {a b : α} :
    (Pure.pure a : ByteReader ε α) bytes cursor = .ok (b,next) ↔ b = a ∧ next = cursor := by
  simp [Pure.pure,eq_comm]

theorem iterate_invariant {body : σ → ByteReader ε σ} (Inv : σ → Prop) {bytes : List UInt8}
    (hbody : ∀ s cursor s' next, Inv s → body s bytes cursor = .ok (s',next) → Inv s') {n : ℕ}
    {s s' : σ} {cursor next : ℕ} (hs : Inv s)
    (h : iterate n body s bytes cursor = .ok (s',next)) : Inv s' := by
  induction n generalizing s cursor with
  | zero =>
    rw [(pure_returns.mp h).1]
    exact hs
  | succ n ih =>
    obtain ⟨t,middle,ht,hrest⟩ := bind_returns.mp h
    exact ih (hbody s cursor t middle hs ht) hrest

theorem failWhen_returns {bad : List UInt8 → ℕ → Bool} {e : ε} {bytes : List UInt8}
    {cursor next : ℕ} {u : Unit} :
    failWhen bad e bytes cursor = .ok (u,next) ↔ bad bytes cursor = false ∧ next = cursor := by
  rw [failWhen]
  cases bad bytes cursor with
  | true => simp
  | false => simp [eq_comm]

/-- From `cursor` to `next` the bytes are `enc`. -/
structure Spelled (bytes : List UInt8) (cursor next : ℕ) (enc : List UInt8) : Prop where
  next_eq : next = cursor+enc.length
  inside : next ≤ bytes.length
  bytes : bytes.drop cursor = enc++bytes.drop next

theorem Spelled.nil {bytes : List UInt8} {cursor : ℕ} (h : cursor ≤ bytes.length) :
    Spelled bytes cursor cursor [] := ⟨rfl,h,rfl⟩

theorem Spelled.append {bytes : List UInt8} {cursor middle next : ℕ} {enc enc' : List UInt8}
    (h : Spelled bytes cursor middle enc) (h' : Spelled bytes middle next enc') :
    Spelled bytes cursor next (enc++enc') := by
  refine ⟨?_,h'.inside,?_⟩
  · rw [h'.next_eq,h.next_eq,List.length_append,Nat.add_assoc]
  · rw [h.bytes,h'.bytes,List.append_assoc]

/-- A string that is spelled from its start to its end is its spelling. -/
theorem Spelled.whole {bytes enc : List UInt8} (h : Spelled bytes 0 bytes.length enc) : bytes = enc := by
  simpa using h.bytes

theorem spelled_slice {bytes : List UInt8} {cursor count : ℕ} (h : cursor+count ≤ bytes.length) :
    Spelled bytes cursor (cursor+count) (LittleEndian.slice bytes cursor count) := by
  refine ⟨?_,h,?_⟩
  · rw [LittleEndian.slice_length,Nat.min_eq_left (by omega)]
  · rw [LittleEndian.slice,← List.drop_drop,List.take_append_drop]

theorem many_length {p : ByteReader ε α} {n : ℕ} {bytes : List UInt8} {cursor next : ℕ}
    {values : List α} (h : many n p bytes cursor = .ok (values,next)) : values.length = n := by
  induction n generalizing cursor next values with
  | zero => rw [(pure_returns.mp h).1,List.length_nil]
  | succ n ih =>
    obtain ⟨a,middle,-,hrest⟩ := bind_returns.mp h
    obtain ⟨rest,last,hmany,hpure⟩ := bind_returns.mp hrest
    rw [(pure_returns.mp hpure).1,List.length_cons,ih hmany]

/-- What each round spells, a counted loop spells one behind the other. -/
theorem many_spells {p : ByteReader ε α} {Encodes : α → List UInt8 → Prop} {bytes : List UInt8}
    (hp : ∀ cursor a next, cursor ≤ bytes.length → p bytes cursor = .ok (a,next) →
      ∃ enc, Encodes a enc ∧ Spelled bytes cursor next enc) {n cursor next : ℕ} {values : List α}
    (hcursor : cursor ≤ bytes.length) (h : many n p bytes cursor = .ok (values,next)) :
    ∃ parts, List.Forall₂ Encodes values parts ∧ Spelled bytes cursor next parts.flatten := by
  induction n generalizing cursor values with
  | zero =>
    obtain ⟨rfl,rfl⟩ := pure_returns.mp h
    exact ⟨[],List.Forall₂.nil,Spelled.nil hcursor⟩
  | succ n ih =>
    obtain ⟨a,middle,hfirst,hrest⟩ := bind_returns.mp h
    obtain ⟨rest,last,hmany,hpure⟩ := bind_returns.mp hrest
    obtain ⟨rfl,rfl⟩ := pure_returns.mp hpure
    obtain ⟨enc,henc,hspelled⟩ := hp cursor a middle hcursor hfirst
    obtain ⟨parts,hparts,htail⟩ := ih hspelled.inside hmany
    exact ⟨enc::parts,List.Forall₂.cons henc hparts,hspelled.append htail⟩

theorem many_spelled {p : ByteReader ε α} {enc : α → List UInt8} {Good : α → Prop}
    {bytes : List UInt8}
    (hp : ∀ cursor a next, cursor ≤ bytes.length → p bytes cursor = .ok (a,next) →
      Good a ∧ Spelled bytes cursor next (enc a)) {n cursor next : ℕ} {values : List α}
    (hcursor : cursor ≤ bytes.length) (h : many n p bytes cursor = .ok (values,next)) :
    values.length = n ∧ (∀ a ∈ values, Good a) ∧
      Spelled bytes cursor next (values.flatMap enc) := by
  have hround : ∀ cursor a next, cursor ≤ bytes.length → p bytes cursor = .ok (a,next) →
      ∃ part, (Good a ∧ part = enc a) ∧ Spelled bytes cursor next part := by
    intro cursor a next hle ha
    obtain ⟨hgood,hspelled⟩ := hp cursor a next hle ha
    exact ⟨_,⟨hgood,rfl⟩,hspelled⟩
  obtain ⟨parts,hparts,hspelled⟩ := many_spells hround hcursor h
  have hall : (∀ a ∈ values, Good a) ∧ parts.flatten = values.flatMap enc := by
    clear hspelled h
    induction hparts with
    | nil => simp
    | cons hpart _ ih =>
      obtain ⟨hgood,rfl⟩ := hpart
      exact ⟨List.forall_mem_cons.mpr ⟨hgood,ih.1⟩,by rw [List.flatten_cons,List.flatMap_cons,ih.2]⟩
  exact ⟨many_length h,hall.1,hall.2 ▸ hspelled⟩

theorem Reads.many_map {p : ByteReader ε α} {enc : α → List UInt8} {values : List α}
    (h : ∀ a ∈ values, Reads p (enc a) a) :
    Reads (ByteReader.many values.length p) (values.flatMap enc) values := by
  induction values with
  | nil => exact Reads.pure []
  | cons a values ih =>
    refine (h a List.mem_cons_self).bind ?_
    exact (ih fun b hb => h b (List.mem_cons_of_mem _ hb)).map fun as => a::as

theorem Reads.whole {p : ByteReader ε α} {enc : List UInt8} {a : α} (h : Reads p enc a) :
    p enc 0 = .ok (a,enc.length) := by
  simpa using h [] []

end ByteReader
end KvIndex
