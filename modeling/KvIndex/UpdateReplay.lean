import KvIndex.UpdateApplier

/-! Replays of an update batch. A publish that has once succeeded is absorbed: from then
on its table takes it again without a change, whatever else is published. So a pass
over the batch that starts from the tables of an interrupted pass catches up with it
and goes on as the first pass would have. -/
namespace KvIndex

namespace RealtimeDeltaAtomicTable

open RealtimeAtomicHashMap (supersedes)

variable {table : RealtimeDeltaAtomicTable}

/-- Two tables that answer alike, to lookups and to publishes. -/
def Same (a b : RealtimeDeltaAtomicTable) : Prop := a.layout = b.layout ∧ a.map = b.map

theorem Same.publish {a b : RealtimeDeltaAtomicTable} (h : Same a b) (k : UInt64)
    (position : SourcePosition) (encoded : EncodedRow) :
    (a.publish k position encoded).1 = (b.publish k position encoded).1 ∧
      Same (a.publish k position encoded).2 (b.publish k position encoded).2 := by
  have hb : a.buildRowRef k position encoded = b.buildRowRef k position encoded := by
    rw [buildRowRef,buildRowRef,h.1]
  rw [RealtimeDeltaAtomicTable.publish,RealtimeDeltaAtomicTable.publish,hb]
  cases b.buildRowRef k position encoded with
  | error status => exact ⟨rfl,h⟩
  | ok rowRef =>
    simp only [h.2]
    cases b.map.publishAndReport k rowRef with
    | error status => exact ⟨rfl,h.1,rfl⟩
    | ok result => exact ⟨rfl,h.1,rfl⟩

theorem Same.get {a b : RealtimeDeltaAtomicTable} (h : Same a b) (k : UInt64) : a.get k = b.get k := by
  rw [RealtimeDeltaAtomicTable.get,RealtimeDeltaAtomicTable.get,h.1,h.2]

theorem publish_failed {k : UInt64} {position : SourcePosition} {encoded : EncodedRow}
    {status : Status} (h : (table.publish k position encoded).1 = .error status) :
    Same (table.publish k position encoded).2 table := by
  rcases publish_cases table k position encoded with
    ⟨status,_,hp⟩ | ⟨status,rowRef,_,_,hp⟩ | ⟨rowRef,changed,map,_,_,hp⟩
  · rw [hp]
    exact ⟨rfl,rfl⟩
  · rw [hp]
    exact ⟨rfl,rfl⟩
  · rw [hp] at h
    cases h

/-- A publish that succeeds is accepted, and from the partition of the row it meets. -/
theorem Sound.publish_eq_ok (hs : table.Sound) {call : PublishCall}
    (h : (table.publish call.primaryKey call.position call.encoded).1 = .ok ()) :
    table.Accepts call ∧ ∀ c, table.latest call.primaryKey = some c →
      c.position.partition = call.position.partition := by
  rcases publish_cases table call.primaryKey call.position call.encoded with
    ⟨status,_,hp⟩ | ⟨status,rowRef,_,_,hp⟩ | ⟨rowRef,changed,map,hb,hm,_⟩
  · rw [hp] at h
    cases h
  · rw [hp] at h
    cases h
  · refine ⟨by rw [Accepts,hb]; rfl,?_⟩
    intro c hc
    obtain ⟨_,hpos,_⟩ := buildRowRef_eq_ok hb
    obtain ⟨hnew,_⟩ := hs.map.publishAndReport_ok hm
    obtain ⟨current,hcur,rfl⟩ := Option.map_eq_some_iff.mp hc
    rw [hcur] at hnew
    simp only [supersedes,bind_eq_ok] at hnew
    obtain ⟨decision,hdec,_⟩ := hnew
    rw [← hpos]
    exact (classifySourcePositionUpdate_newer hdec).1

/-- The table shows a row of the key that is at least as new as the publish. -/
structure Absorbs (table : RealtimeDeltaAtomicTable) (call : PublishCall) : Prop where
  accepts : table.Accepts call
  held : ∃ c, table.latest call.primaryKey = some c ∧
    c.position.partition = call.position.partition ∧ sourceOffset call ≤ sourceOffset c

theorem Sound.latest_publish_self (hs : table.Sound) {call : PublishCall}
    (h : (table.publish call.primaryKey call.position call.encoded).1 = .ok ()) :
    ∃ c, (table.publish call.primaryKey call.position call.encoded).2.latest call.primaryKey =
        some c ∧ c.position.partition = call.position.partition ∧
      sourceOffset call ≤ sourceOffset c ∧
      ∀ old, table.latest call.primaryKey = some old → sourceOffset old ≤ sourceOffset c := by
  obtain ⟨_,hpart⟩ := hs.publish_eq_ok h
  rw [hs.publish_latest h,LastWriter.write_self]
  cases hl : table.latest call.primaryKey with
  | none =>
    rw [if_pos (by simp [LastWriter.wins])]
    refine ⟨call,rfl,rfl,le_rfl,?_⟩
    intro old hold
    cases hold
  | some old =>
    by_cases hlt : sourceOffset old < sourceOffset call
    · rw [if_pos (by simpa [LastWriter.wins] using hlt)]
      refine ⟨call,rfl,rfl,le_rfl,?_⟩
      intro old' hold
      cases hold
      exact hlt.le
    · rw [if_neg (by simpa [LastWriter.wins] using hlt)]
      refine ⟨old,rfl,hpart old hl,not_lt.mp hlt,?_⟩
      intro old' hold
      cases hold
      exact le_rfl

theorem Sound.absorbs_publish (hs : table.Sound) {call : PublishCall}
    (h : (table.publish call.primaryKey call.position call.encoded).1 = .ok ()) :
    (table.publish call.primaryKey call.position call.encoded).2.Absorbs call := by
  obtain ⟨c,hc,hpart,hle,_⟩ := hs.latest_publish_self h
  exact ⟨(hs.publish_eq_ok h).1.congr (publish_layout _ _ _ _),c,hc,hpart,hle⟩

/-- Once absorbed, a publish stays absorbed under every other publish. -/
theorem Absorbs.publish {call : PublishCall} (ha : table.Absorbs call) (hs : table.Sound)
    (other : PublishCall) :
    (table.publish other.primaryKey other.position other.encoded).2.Absorbs call := by
  obtain ⟨c,hc,hpart,hle⟩ := ha.held
  refine ⟨ha.accepts.congr (publish_layout _ _ _ _),?_⟩
  cases hst : (table.publish other.primaryKey other.position other.encoded).1 with
  | error status =>
    have hsame := publish_failed hst
    refine ⟨c,?_,hpart,hle⟩
    rw [latest,hsame.2]
    exact hc
  | ok u =>
    by_cases hk : call.primaryKey = other.primaryKey
    · obtain ⟨c',hc',hpart',_,hold⟩ := hs.latest_publish_self hst
      rw [hk] at hc
      refine ⟨c',by rw [hk]; exact hc',?_,hle.trans (hold c hc)⟩
      rw [hpart',← (hs.publish_eq_ok hst).2 c hc,hpart]
    · refine ⟨c,?_,hpart,hle⟩
      rw [hs.publish_latest hst,LastWriter.write_of_ne _ hk]
      exact hc

/-- The table takes an absorbed publish again, and shows no change. -/
theorem Absorbs.publish_self {call : PublishCall} (ha : table.Absorbs call) (hs : table.Sound) :
    (table.publish call.primaryKey call.position call.encoded).1 = .ok () ∧
      Same (table.publish call.primaryKey call.position call.encoded).2 table := by
  obtain ⟨rowRef,hb⟩ := ha.accepts.eq_ok
  obtain ⟨hkey,hpos,_,hvalid,_⟩ := buildRowRef_eq_ok hb
  obtain ⟨c,hc,hpart,hle⟩ := ha.held
  obtain ⟨current,hcur,rfl⟩ := Option.map_eq_some_iff.mp hc
  have hvalid' : isValidSourcePosition rowRef.position = true := by rw [hpos,hvalid]
  obtain ⟨_,hcurValid⟩ := hs.map.visible_row hcur
  obtain ⟨index,_,_,hpub⟩ := hs.map.publishAndReport_held hkey hvalid' hcur
  have hpart' : current.position.partition = rowRef.position.partition := by
    rw [hpos]
    exact hpart
  obtain ⟨decision,hdec⟩ := classifySourcePositionUpdate_ok hcurValid hvalid' hpart'
  have hold : (decision == .kNewer) = false := by
    rw [beq_eq_false_iff_ne]
    intro hnew
    have hlt := (classifySourcePositionUpdate_newer hdec).2.mp hnew
    rw [hpos] at hlt
    simp only [sourceOffset,callOf] at hle
    omega
  simp only [supersedes,hdec,ok_bind,pure_eq_ok,hold] at hpub
  simp only [RealtimeDeltaAtomicTable.publish,hb,hpub]
  exact ⟨trivial,rfl,rfl⟩

end RealtimeDeltaAtomicTable

namespace Ingest

open Base RealtimeDeltaAtomicTable

def SameTables (a b : Tables) : Prop := ∀ ref, Same (a ref) (b ref)

def SoundTables (tables : Tables) : Prop := ∀ ref, (tables ref).Sound

theorem publishTo_self (publish : PreparedPublish) (tables : Tables) :
    (publishTo publish tables).2 publish.table = ((tables publish.table).publish
      publish.call.primaryKey publish.call.position publish.call.encoded).2 :=
  Function.update_self _ _ _

theorem publishTo_of_ne {publish : PreparedPublish} {ref : TableRef} (h : ref ≠ publish.table)
    (tables : Tables) : (publishTo publish tables).2 ref = tables ref :=
  Function.update_of_ne h _ _

theorem SoundTables.publishTo {tables : Tables} (hs : SoundTables tables)
    (publish : PreparedPublish) : SoundTables (publishTo publish tables).2 := by
  intro ref
  by_cases h : ref = publish.table
  · subst h
    rw [publishTo_self]
    exact (hs _).publish _ _ _
  · rw [publishTo_of_ne h]
    exact hs ref

theorem SoundTables.runFor {α : Type} {tables : Tables} (hs : SoundTables tables) (n : ℕ)
    (program : Publishing α) : SoundTables (program.runFor Ingest.publishTo n tables) := by
  induction n generalizing program tables with
  | zero => exact hs
  | succ n ih =>
    cases program with
    | done a => exact hs
    | perform publish next => exact ih (hs.publishTo publish) _

theorem SameTables.publishTo {a b : Tables} (h : SameTables a b) (publish : PreparedPublish) :
    (publishTo publish a).1 = (publishTo publish b).1 ∧
      SameTables (publishTo publish a).2 (publishTo publish b).2 := by
  have hstep := (h publish.table).publish publish.call.primaryKey publish.call.position
    publish.call.encoded
  refine ⟨hstep.1,fun ref => ?_⟩
  by_cases hr : ref = publish.table
  · subst hr
    rw [publishTo_self,publishTo_self]
    exact hstep.2
  · rw [publishTo_of_ne hr,publishTo_of_ne hr]
    exact h ref

theorem SameTables.run {α : Type} {a b : Tables} (h : SameTables a b) (program : Publishing α) :
    (program.run Ingest.publishTo a).1 = (program.run Ingest.publishTo b).1 ∧
      SameTables (program.run Ingest.publishTo a).2 (program.run Ingest.publishTo b).2 := by
  induction program generalizing a b with
  | done value => exact ⟨rfl,h⟩
  | perform publish next ih =>
    obtain ⟨hstatus,hnext⟩ := h.publishTo publish
    simp only [Prog.run,hstatus]
    exact ih _ hnext

theorem publishTo_failed {publish : PreparedPublish} {tables : Tables} {status : Status}
    (h : (publishTo publish tables).1 = .error status) :
    SameTables (publishTo publish tables).2 tables := by
  intro ref
  by_cases hr : ref = publish.table
  · subst hr
    rw [publishTo_self]
    exact publish_failed h
  · rw [publishTo_of_ne hr]
    exact ⟨rfl,rfl⟩

def AbsorbsIn (tables : Tables) (publish : PreparedPublish) : Prop :=
  (tables publish.table).Absorbs publish.call

theorem AbsorbsIn.publishTo {tables : Tables} {publish : PreparedPublish}
    (ha : AbsorbsIn tables publish) (hs : SoundTables tables) (other : PreparedPublish) :
    AbsorbsIn (Ingest.publishTo other tables).2 publish := by
  rw [AbsorbsIn]
  by_cases hr : publish.table = other.table
  · rw [hr,publishTo_self,← hr]
    exact Absorbs.publish ha (hs _) _
  · rw [publishTo_of_ne hr]
    exact ha

theorem AbsorbsIn.runFor {α : Type} {tables : Tables} {publish : PreparedPublish}
    (ha : AbsorbsIn tables publish) (hs : SoundTables tables) (n : ℕ) (program : Publishing α) :
    AbsorbsIn (program.runFor Ingest.publishTo n tables) publish := by
  induction n generalizing program tables with
  | zero => exact ha
  | succ n ih =>
    cases program with
    | done a => exact ha
    | perform other next => exact ih (ha.publishTo hs other) (hs.publishTo other) _

theorem AbsorbsIn.publishTo_self {tables : Tables} {publish : PreparedPublish}
    (ha : AbsorbsIn tables publish) (hs : SoundTables tables) :
    (Ingest.publishTo publish tables).1 = .ok () ∧
      SameTables (Ingest.publishTo publish tables).2 tables := by
  obtain ⟨hok,hsame⟩ := Absorbs.publish_self ha (hs _)
  refine ⟨hok,fun ref => ?_⟩
  by_cases hr : ref = publish.table
  · subst hr
    rw [Ingest.publishTo_self]
    exact hsame
  · rw [publishTo_of_ne hr]
    exact ⟨rfl,rfl⟩

/-- Publishes in a row that stop at the first failure, then a fixed status. -/
def sequence : List PreparedPublish → StatusOr Unit → Publishing (StatusOr Unit)
  | [], final => pure final
  | publish::publishes, final => do
    match ← Prog.call publish with
    | .error status => pure (.error status)
    | .ok _ => sequence publishes final

theorem publishPrepared_eq (prepared : List PreparedPublish) :
    publishPrepared prepared = sequence prepared (.ok ()) := by
  induction prepared with
  | nil => rfl
  | cons publish prepared ih =>
    rw [publishPrepared,sequence,Prog.call_bind,Prog.call_bind]
    congr 1
    funext status
    cases status with
    | error status => rfl
    | ok u => exact ih

theorem sequence_append (first second : List PreparedPublish) (final : StatusOr Unit) :
    (do match ← sequence first (.ok ()) with
        | .error status => pure (.error status)
        | .ok _ => sequence second final) = sequence (first++second) final := by
  induction first with
  | nil => rfl
  | cons publish first ih =>
    rw [sequence,Prog.call_bind,List.cons_append,sequence,Prog.call_bind,Prog.perform_bind]
    congr 1
    funext status
    cases status with
    | error status => rfl
    | ok u => exact ih

theorem applyBatch_eq_sequence (options : UpdateApplierOptions) (messages : List KafkaUpsertMessage) :
    ∃ publishes final, applyBatch options messages = sequence publishes final := by
  induction messages with
  | nil => exact ⟨[],.ok (),rfl⟩
  | cons message messages ih =>
    obtain ⟨publishes,final,hrest⟩ := ih
    rw [applyBatch,apply]
    cases hp : prepare options message with
    | error status => exact ⟨[],.error status,rfl⟩
    | ok prepared =>
      refine ⟨prepared++publishes,final,?_⟩
      have hsequence := sequence_append prepared publishes final
      rw [← publishPrepared_eq,← hrest] at hsequence
      exact hsequence

/-- A pass from the tables of an interrupted pass ends as a pass from the tables before it. -/
theorem sequence_catches_up {tables : Tables} (hs : SoundTables tables) (n : ℕ)
    (publishes : List PreparedPublish) (final : StatusOr Unit) :
    ((sequence publishes final).run publishTo
        ((sequence publishes final).runFor publishTo n tables)).1 =
      ((sequence publishes final).run publishTo tables).1 ∧
    SameTables ((sequence publishes final).run publishTo
        ((sequence publishes final).runFor publishTo n tables)).2
      ((sequence publishes final).run publishTo tables).2 := by
  induction publishes generalizing tables n with
  | nil =>
    cases n with
    | zero => exact ⟨rfl,fun ref => ⟨rfl,rfl⟩⟩
    | succ n => exact ⟨rfl,fun ref => ⟨rfl,rfl⟩⟩
  | cons publish publishes ih =>
    cases n with
    | zero => exact ⟨rfl,fun ref => ⟨rfl,rfl⟩⟩
    | succ n =>
      rw [sequence,Prog.call_bind]
      simp only [Prog.runFor]
      cases hst : (publishTo publish tables).1 with
      | error status =>
        -- The pass ended here, on tables that answer as before the publish.
        have hend : Prog.runFor publishTo n (pure (.error status) : Publishing (StatusOr Unit))
            (publishTo publish tables).2 = (publishTo publish tables).2 := by
          cases n with
          | zero => rfl
          | succ n => rfl
        simp only [hend]
        exact (publishTo_failed hst).run _
      | ok u =>
        have hs' := hs.publishTo publish
        have habsorbed : AbsorbsIn (publishTo publish tables).2 publish := by
          rw [AbsorbsIn,publishTo_self]
          exact (hs _).absorbs_publish hst
        obtain ⟨hok,hsame⟩ :=
          (habsorbed.runFor hs' n (sequence publishes final)).publishTo_self
            (hs'.runFor n (sequence publishes final))
        obtain ⟨hstatus,htables⟩ := ih hs' n
        obtain ⟨hstatus',htables'⟩ := hsame.run (sequence publishes final)
        simp only [Prog.run,hst,hok]
        refine ⟨hstatus'.trans hstatus,fun ref => ?_⟩
        exact ⟨(htables' ref).1.trans (htables ref).1,(htables' ref).2.trans (htables ref).2⟩

/-- The tables after passes over the batch that were cut off behind so many publishes. -/
def interruptedPasses (options : UpdateApplierOptions) (messages : List KafkaUpsertMessage)
    (tables : Tables) (cuts : List ℕ) : Tables :=
  cuts.foldl (fun tables n => (applyBatch options messages).runFor publishTo n tables) tables

/-- Partial application is repaired by replay. -/
theorem replay_repairs_partialApplication (options : UpdateApplierOptions)
    (messages : List KafkaUpsertMessage) {tables : Tables}
    (hreach : ∀ ref, (tables ref).Reachable) (cuts : List ℕ) :
    ((applyBatch options messages).run publishTo
        (interruptedPasses options messages tables cuts)).1 =
      ((applyBatch options messages).run publishTo tables).1 ∧
    ∀ ref k, (((applyBatch options messages).run publishTo
        (interruptedPasses options messages tables cuts)).2 ref).get k =
      (((applyBatch options messages).run publishTo tables).2 ref).get k := by
  obtain ⟨publishes,final,hpass⟩ := applyBatch_eq_sequence options messages
  have hcuts : ∀ tables, SoundTables tables →
      ((applyBatch options messages).run publishTo
          (interruptedPasses options messages tables cuts)).1 =
        ((applyBatch options messages).run publishTo tables).1 ∧
      SameTables ((applyBatch options messages).run publishTo
          (interruptedPasses options messages tables cuts)).2
        ((applyBatch options messages).run publishTo tables).2 := by
    induction cuts with
    | nil => exact fun tables hs => ⟨rfl,fun ref => ⟨rfl,rfl⟩⟩
    | cons n cuts ih =>
      intro tables hs
      obtain ⟨hstatus,htables⟩ := ih _ (hs.runFor n (applyBatch options messages))
      have hone := sequence_catches_up hs n publishes final
      rw [← hpass] at hone
      refine ⟨hstatus.trans hone.1,fun ref => ?_⟩
      exact ⟨(htables ref).1.trans (hone.2 ref).1,(htables ref).2.trans (hone.2 ref).2⟩
  obtain ⟨hstatus,hsame⟩ := hcuts tables fun ref => (hreach ref).sound
  exact ⟨hstatus,fun ref k => (hsame ref).get k⟩

/-- The first pass stops between the two targets of the first message. -/
theorem replay_repairs_partialApplication_sample :
    ((applyBatch sampleApplier [sampleMessage 7 5,sampleMessage 7 6]).run publishTo
      (interruptedPasses sampleApplier [sampleMessage 7 5,sampleMessage 7 6]
        (fun _ => sampleTable 4) [1,3])).1 = .ok () := by
  have hpass : ((applyBatch sampleApplier [sampleMessage 7 5,sampleMessage 7 6]).run publishTo
      (fun _ => sampleTable 4)).1 = .ok () := by
    decide +kernel
  rw [(replay_repairs_partialApplication sampleApplier [sampleMessage 7 5,sampleMessage 7 6]
    (fun _ => sampleTable_reachable 4) [1,3]).1,hpass]

end Ingest
end KvIndex
