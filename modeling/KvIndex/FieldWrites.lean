import KvIndex.PayloadWire
import KvIndex.RowWrites

/-! Writing a value to a field, as the row encoders see it: when the value can be written, what
it adds to the dictionaries and to the arena, and what a sequence of writes to distinct fields
leaves. -/
namespace KvIndex

open Base LittleEndian Schema CompiledRowLayout Ingest

def FieldDefaultValue.textLength : FieldDefaultValue → ℕ
  | .string v => v.length
  | .strings vs => (vs.map List.length).sum
  | _ => 0

namespace Model

/-- A value of the type and the shape of a field. -/
def Typed (field : FieldLayout) (value : FieldValue) : Prop :=
  if field.isList then ∃ list : ListValue, field.type = list.type ∧ value = list.value
  else ∃ scalar : ScalarValue, field.type = scalar.type ∧ value = scalar.value

/-- The encoding of the field takes the value. -/
def Supported (field : FieldLayout) (value : FieldValue) : Prop :=
  if field.isList then
    if field.type = .kString then
      field.encoding = .kArena ∧ value.elementCount*16 ≤ uint32Max ∨
        field.encoding = .kListDictionary ∨ field.encoding = .kElementDictionary
    else field.encoding = .kArena ∨ field.encoding = .kListDictionary
  else field.type = .kString → field.encoding = .kArena ∨ field.encoding = .kDictionary

inductive Dictionary
  | strings | scalarLists | stringLists | elements
  deriving DecidableEq

def dictionarySize (row : EncodedRow) : Dictionary → ℕ
  | .strings => row.stringDictionary.length
  | .scalarLists => row.scalarListDictionary.length
  | .stringLists => row.stringListDictionary.length
  | .elements => row.stringElementDictionary.length

def newEntries (field : FieldLayout) (value : FieldValue) : Dictionary → ℕ
  | .strings =>
    if field.isList = false ∧ field.type = .kString ∧ field.encoding = .kDictionary then 1 else 0
  | .scalarLists =>
    if field.isList = true ∧ field.type ≠ .kString ∧ field.encoding = .kListDictionary then 1
    else 0
  | .stringLists =>
    if field.isList = true ∧ field.type = .kString ∧ field.encoding = .kListDictionary then 1
    else 0
  | .elements =>
    if field.isList = true ∧ field.type = .kString ∧ field.encoding = .kElementDictionary then
      value.elementCount
    else 0

/-- The dictionaries have ids for the new entries. -/
def Room (row : EncodedRow) (field : FieldLayout) (value : FieldValue) : Prop :=
  ∀ d, newEntries field value d = 0 ∨ dictionarySize row d+newEntries field value d ≤ 2^32

def arenaBytes (field : FieldLayout) (value : FieldValue) : ℕ :=
  if field.encoding = .kArena then
    if field.type = .kString then
      (if field.isList then value.elementCount*16 else 0)+value.textLength
    else if field.isList then value.elementCount*fieldTypeSize field.type else 0
  else if field.isList = true ∧ field.type = .kString ∧ field.encoding = .kElementDictionary then
    value.elementCount*size UInt32
  else 0

/-- A write with the sizes it leaves. -/
structure Stored (layout : CompiledRowLayout) (field : FieldLayout) (value : FieldValue)
    (row row' : EncodedRow) : Prop extends Written layout field value row row' where
  sizes : ∀ d, dictionarySize row' d = dictionarySize row d+newEntries field value d
  arena : row'.arena.length = row.arena.length+arenaBytes field value

theorem Written.stored {layout : CompiledRowLayout} {field : FieldLayout} {value : FieldValue}
    {row mid row' : EncodedRow} (h : Written layout field value row row') (hd : SameData mid row')
    (hsizes : ∀ d, dictionarySize mid d = dictionarySize row d+newEntries field value d)
    (harena : mid.arena.length = row.arena.length+arenaBytes field value) :
    Stored layout field value row row' := by
  refine ⟨h,?_,by rw [hd.arena,harena]⟩
  intro d
  rw [← hsizes d]
  cases d with
  | strings => exact congrArg List.length hd.stringDictionary
  | scalarLists => exact congrArg List.length hd.scalarListDictionary
  | stringLists => exact congrArg List.length hd.stringListDictionary
  | elements => exact congrArg List.length hd.stringElementDictionary

/-- Writes to fields, one after the other. -/
inductive StoredAll (layout : CompiledRowLayout) :
    List (FieldLayout×FieldValue) → EncodedRow → EncodedRow → Prop
  | nil (row : EncodedRow) : StoredAll layout [] row row
  | cons {field : FieldLayout} {value : FieldValue} {writes : List (FieldLayout×FieldValue)}
      {row mid row' : EncodedRow} (hfirst : Stored layout field value row mid)
      (hrest : StoredAll layout writes mid row') : StoredAll layout ((field,value)::writes) row row'

section Writes

variable {layout : CompiledRowLayout} {field : FieldLayout} {value : FieldValue}
  {row row' : EncodedRow} {writes : List (FieldLayout×FieldValue)}

theorem StoredAll.kept (h : StoredAll layout writes row row') :
    row'.schemaVersion = row.schemaVersion ∧ row'.layoutFingerprint = row.layoutFingerprint ∧
      row'.rowSlot.length = row.rowSlot.length := by
  induction h with
  | nil row => exact ⟨rfl,rfl,rfl⟩
  | cons hfirst _ ih =>
    exact ⟨ih.1.trans hfirst.schemaVersion,ih.2.1.trans hfirst.layoutFingerprint,
      ih.2.2.trans hfirst.length⟩

theorem StoredAll.other (h : StoredAll layout writes row row') (hformed : Formed layout)
    {other : FieldLayout} (hother : other ∈ layout.fields) (hne : ∀ w ∈ writes, other ≠ w.1) :
    fieldPresent other row' = fieldPresent other row ∧
      ∀ v, readPresent other row = .ok v → readPresent other row' = .ok v := by
  induction h with
  | nil row => exact ⟨rfl,fun _ hv => hv⟩
  | cons hfirst _ ih =>
    obtain ⟨hbit,hread⟩ := ih fun w hw => hne w (List.mem_cons_of_mem _ hw)
    have hfield := hne _ List.mem_cons_self
    refine ⟨hbit.trans (hfirst.bits other hother hfield),?_⟩
    exact fun v hv => hread v ((hfirst.toFrame.readPresent hformed hother hfield).ok hv)

/-- Whatever their order, writes to distinct fields are all read back. -/
theorem StoredAll.reads (h : StoredAll layout writes row row') (hformed : Formed layout)
    (hmem : ∀ w ∈ writes, w.1 ∈ layout.fields) (hdistinct : (writes.map Prod.fst).Nodup)
    {w : FieldLayout×FieldValue} (hw : w ∈ writes) :
    fieldPresent w.1 row' = true ∧ readPresent w.1 row' = .ok w.2 := by
  induction h with
  | nil row => cases hw
  | @cons field value writes row mid row' hfirst hrest ih =>
    obtain ⟨hnew,hdistinct⟩ := List.nodup_cons.mp hdistinct
    rcases List.mem_cons.mp hw with rfl | hw
    · have hne : ∀ v ∈ writes, field ≠ v.1 := by
        rintro v hv rfl
        exact hnew (List.mem_map.mpr ⟨v,hv,rfl⟩)
      obtain ⟨hbit,hread⟩ := hrest.other hformed (hmem _ List.mem_cons_self) hne
      exact ⟨hbit.trans hfirst.present,hread value hfirst.reads⟩
    · exact ih (fun v hv => hmem v (List.mem_cons_of_mem _ hv)) hdistinct hw

end Writes

end Model
end KvIndex
