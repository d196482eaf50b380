import KvIndex.UpdateCoordinator

/-! What a call of the coordinator has done when it commits, and runs of calls. A call
commits only after every message that was delivered to it has been applied; nothing
ties it to the messages that earlier calls were delivered and failed to apply. -/
namespace KvIndex
namespace Ingest

open Base

/-- The checkpoint stands behind the last of these messages in each of their partitions. -/
structure CheckpointOf (checkpoint : KafkaCheckpoint) (messages : List KafkaUpsertMessage) :
    Prop where
  last : ∀ position ∈ checkpoint.nextOffsets, ∃ message ∈ messages,
    message.metadata.partition = position.partition ∧
    position.offset.toInt = message.metadata.offset.toInt+1
  covers : ∀ message ∈ messages, ∃ position ∈ checkpoint.nextOffsets,
    position.partition = message.metadata.partition ∧
    message.metadata.offset.toInt < position.offset.toInt

/-- The greatest offsets of the messages seen so far. -/
structure MaxOffsets (maxOffsets : List KafkaPosition) (seen : List KafkaUpsertMessage) : Prop where
  distinct : FirstWins.Distinct KafkaPosition.partition maxOffsets
  attained : ∀ position ∈ maxOffsets, ∃ message ∈ seen,
    message.metadata.partition = position.partition ∧ message.metadata.offset = position.offset ∧
    message.metadata.offset ≠ Int64.maxValue
  covers : ∀ message ∈ seen, ∃ position ∈ maxOffsets,
    position.partition = message.metadata.partition ∧
    message.metadata.offset.toInt ≤ position.offset.toInt

theorem mem_replace {position other : KafkaPosition} {positions : List KafkaPosition}
    (h : other ∈ FirstWins.replace KafkaPosition.partition position positions) :
    other = position ∨ other ∈ positions := by
  obtain ⟨old,hold,rfl⟩ := List.mem_map.mp h
  by_cases hk : old.partition = position.partition
  · left
    simp [hk]
  · right
    simpa [hk] using hold

theorem MaxOffsets.raise {maxOffsets maxOffsets' : List KafkaPosition}
    {seen : List KafkaUpsertMessage} (hm : MaxOffsets maxOffsets seen)
    {message : KafkaUpsertMessage} (h : raiseMaxOffset maxOffsets message = .ok maxOffsets') :
    MaxOffsets maxOffsets' (seen++[message]) := by
  simp only [raiseMaxOffset,bind_eq_ok,failIf_eq_ok,exists_const,beq_eq_false_iff_ne] at h
  obtain ⟨hmax,h⟩ := h
  have hmem : message ∈ seen++[message] := by simp
  have hold : ∀ position ∈ maxOffsets, ∃ m ∈ seen++[message],
      m.metadata.partition = position.partition ∧ m.metadata.offset = position.offset ∧
      m.metadata.offset ≠ Int64.maxValue := by
    intro position hp
    obtain ⟨m,hmseen,hrest⟩ := hm.attained position hp
    exact ⟨m,List.mem_append_left _ hmseen,hrest⟩
  cases hf : FirstWins.find KafkaPosition.partition maxOffsets message.metadata.partition with
  | none =>
    rw [hf] at h
    simp only [pure_eq_ok,Except.ok.injEq] at h
    subst h
    refine ⟨?_,?_,?_⟩
    · rw [FirstWins.Distinct,List.map_append,List.nodup_append]
      refine ⟨hm.distinct,by simp,?_⟩
      intro a ha b hb
      obtain ⟨position,hp,rfl⟩ := List.mem_map.mp ha
      rw [List.map_singleton,List.mem_singleton] at hb
      rw [hb]
      exact FirstWins.find_eq_none.mp hf position hp
    · intro position hp
      rcases List.mem_append.mp hp with hp | hp
      · exact hold position hp
      · rw [List.mem_singleton.mp hp]
        exact ⟨message,hmem,rfl,rfl,hmax⟩
    · intro m hms
      rcases List.mem_append.mp hms with hms | hms
      · obtain ⟨position,hp,hrest⟩ := hm.covers m hms
        exact ⟨position,List.mem_append_left _ hp,hrest⟩
      · rw [List.mem_singleton.mp hms]
        exact ⟨_,List.mem_append_right _ List.mem_cons_self,rfl,le_rfl⟩
  | some current =>
    rw [hf] at h
    have hcur := FirstWins.find_mem hf
    have hkey := FirstWins.find_key hf
    by_cases hgt : message.metadata.offset > current.offset
    · simp only [hgt,if_true,pure_eq_ok,Except.ok.injEq] at h
      subst h
      have hlt : current.offset.toInt < message.metadata.offset.toInt := Int64.lt_iff_toInt_lt.mp hgt
      have hnew : (⟨message.metadata.partition,message.metadata.offset⟩ : KafkaPosition) ∈
          FirstWins.replace KafkaPosition.partition
            ⟨message.metadata.partition,message.metadata.offset⟩ maxOffsets := by
        refine List.mem_map.mpr ⟨current,hcur,?_⟩
        simp [hkey]
      refine ⟨FirstWins.distinct_replace hm.distinct,?_,?_⟩
      · intro position hp
        rcases mem_replace hp with rfl | hp
        · exact ⟨message,hmem,rfl,rfl,hmax⟩
        · exact hold position hp
      · intro m hms
        rcases List.mem_append.mp hms with hms | hms
        · obtain ⟨position,hp,hpart,hle⟩ := hm.covers m hms
          by_cases hk : position.partition = message.metadata.partition
          · have hsame := FirstWins.find_of_mem hm.distinct hp
            rw [hk,hf,Option.some.injEq] at hsame
            subst hsame
            exact ⟨_,hnew,by rw [← hpart,hk],hle.trans hlt.le⟩
          · refine ⟨position,List.mem_map.mpr ⟨position,hp,?_⟩,hpart,hle⟩
            simp [hk]
        · rw [List.mem_singleton.mp hms]
          exact ⟨_,hnew,rfl,le_rfl⟩
    · simp only [hgt,if_false,pure_eq_ok,Except.ok.injEq] at h
      subst h
      refine ⟨hm.distinct,hold,?_⟩
      intro m hms
      rcases List.mem_append.mp hms with hms | hms
      · exact hm.covers m hms
      · rw [List.mem_singleton.mp hms]
        refine ⟨current,hcur,hkey,?_⟩
        by_contra hno
        exact hgt (Int64.lt_iff_toInt_lt.mpr (by omega))

theorem MaxOffsets.foldlM {maxOffsets maxOffsets' : List KafkaPosition}
    {seen messages : List KafkaUpsertMessage} (hm : MaxOffsets maxOffsets seen)
    (h : messages.foldlM raiseMaxOffset maxOffsets = .ok maxOffsets') :
    MaxOffsets maxOffsets' (seen++messages) := by
  induction messages generalizing maxOffsets seen with
  | nil =>
    cases h
    rwa [List.append_nil]
  | cons message messages ih =>
    rw [List.foldlM_cons,bind_eq_ok] at h
    obtain ⟨mid,hstep,hrest⟩ := h
    have hall := ih (hm.raise hstep) hrest
    rwa [List.append_assoc,List.singleton_append] at hall

theorem Int64.toInt_add_one {a : Int64} (h : a ≠ Int64.maxValue) : (a+1).toInt = a.toInt+1 := by
  have hlt := a.toInt_lt
  have hle := Int64.le_toInt a
  have hne : a.toInt ≠ Int64.maxValue.toInt := fun he => h (Int64.toInt_inj.mp he)
  have hmax : Int64.maxValue.toInt = 2^63-1 := by decide
  have hone : (1 : Int64).toInt = 1 := by decide
  rw [Int64.toInt_add,hone,Int.bmod_eq_of_le (by omega) (by omega)]

theorem buildCommitCheckpoint_spec {messages : List KafkaUpsertMessage}
    {checkpoint : KafkaCheckpoint} (h : buildCommitCheckpoint messages = .ok checkpoint) :
    CheckpointOf checkpoint messages := by
  simp only [buildCommitCheckpoint,bind_eq_ok,pure_eq_ok,Except.ok.injEq] at h
  obtain ⟨maxOffsets,hfold,rfl⟩ := h
  have hempty : MaxOffsets [] [] := ⟨List.nodup_nil,by simp,by simp⟩
  have hm := hempty.foldlM hfold
  rw [List.nil_append] at hm
  refine ⟨?_,?_⟩
  · intro position hp
    obtain ⟨top,htop,rfl⟩ := List.mem_map.mp hp
    rw [List.mem_insertionSort] at htop
    obtain ⟨message,hmem,hpart,hoffset,hmax⟩ := hm.attained top htop
    refine ⟨message,hmem,hpart,?_⟩
    rw [hoffset] at hmax ⊢
    exact Int64.toInt_add_one hmax
  · intro message hmem
    obtain ⟨top,htop,hpart,hle⟩ := hm.covers message hmem
    obtain ⟨_,_,_,hoffset,hmax⟩ := hm.attained top htop
    rw [hoffset] at hmax
    refine ⟨_,List.mem_map.mpr ⟨top,(List.mem_insertionSort _).mpr htop,rfl⟩,hpart,?_⟩
    simp only [Int64.toInt_add_one hmax]
    omega

/-- The messages are what the raw messages convert to, in order. -/
def Converted (raws : List RawMessage) (messages : List KafkaUpsertMessage) : Prop :=
  List.Forall₂ (fun raw message => convertMessage raw = .ok message) raws messages

/-- A call may commit behind messages that it was delivered, after it has applied all
that it was delivered. -/
structure MayCommit (applier : UpdateApplierOptions) (history : List IngestEvent)
    (checkpoint : KafkaCheckpoint) : Prop where
  applied : ∀ raw ∈ delivered history, Applied applier history raw
  last : ∀ position ∈ checkpoint.nextOffsets, ∃ raw ∈ delivered history,
    raw.On position.partition ∧ position.offset.toInt = raw.offset.toInt+1

def callRules (applier : UpdateApplierOptions) : Prog.Rules IngestRes where
  allowed history op :=
    match op with
    | .commit checkpoint => MayCommit applier history checkpoint
    | _ => True

theorem convertMessage_on {raw : RawMessage} {message : KafkaUpsertMessage}
    (h : convertMessage raw = .ok message) :
    raw.On message.metadata.partition ∧ raw.offset = message.metadata.offset := by
  cases ht : raw.topic with
  | none => simp [convertMessage,ht] at h
  | some topic =>
    simp only [convertMessage,ht,bind_eq_ok,failIf_eq_ok,exists_const,pure_eq_ok,
      Except.ok.injEq] at h
    obtain ⟨_,_,_,rfl⟩ := h
    exact ⟨⟨ht,rfl⟩,rfl⟩

theorem delivered_poll {history : List IngestEvent} {timeoutMs : Int32} {raw : RawMessage}
    (h : raw.err = .noError) :
    delivered (history++[⟨.consumerPoll timeoutMs,some raw⟩]) = delivered history++[raw] := by
  rw [delivered_append]
  simp [delivered,h]

theorem delivered_poll_error {history : List IngestEvent} {timeoutMs : Int32} {raw : RawMessage}
    (h : raw.err ≠ .noError) :
    delivered (history++[⟨.consumerPoll timeoutMs,some raw⟩]) = delivered history := by
  rw [delivered_append]
  simp [delivered,h]

theorem delivered_poll_none {history : List IngestEvent} {timeoutMs : Int32} :
    delivered (history++[⟨.consumerPoll timeoutMs,none⟩]) = delivered history := by
  rw [delivered_append]
  simp [delivered]

section Call

variable {rules : Prog.Rules IngestRes}

theorem pollMessages_safe
    (hpoll : ∀ history timeoutMs, rules.allowed history (.consumerPoll timeoutMs))
    (timeoutMs : Int32) (remaining : ℕ) {history : List IngestEvent}
    {messages : List KafkaUpsertMessage} (h : Converted (delivered history) messages) :
    Prog.Safe rules
      (fun history result => ∀ batch, result = .ok batch → Converted (delivered history) batch)
      history (LibrdkafkaUpdateConsumerClient.pollMessages timeoutMs remaining messages) := by
  induction remaining generalizing history messages with
  | zero =>
    intro batch hb
    cases hb
    exact h
  | succ remaining ih =>
    refine Prog.Safe.call_bind (hpoll _ _) fun answer _ => ?_
    cases answer with
    | none =>
      intro batch hb
      cases hb
      rwa [delivered_poll_none]
    | some raw =>
      cases he : raw.err with
      | partitionEof =>
        simp only [he]
        refine ih ?_
        rwa [delivered_poll_error (by simp [he])]
      | failed text =>
        simp only [he]
        intro batch hb
        cases hb
      | noError =>
        simp only [he]
        cases hc : convertMessage raw with
        | error status =>
          intro batch hb
          cases hb
        | ok message =>
          refine ih ?_
          rw [delivered_poll he]
          exact List.rel_append h (List.Forall₂.cons hc List.Forall₂.nil)

variable {applier : UpdateApplierOptions}

theorem published_publish {history : List IngestEvent} {publish : PreparedPublish} :
    published (history++[⟨.publish publish,.ok ()⟩]) = published history++[publish] := by
  rw [published_append]
  rfl

theorem delivered_publish {history : List IngestEvent} {publish : PreparedPublish}
    {answer : StatusOr Unit} :
    delivered (history++[⟨.publish publish,answer⟩]) = delivered history := by
  rw [delivered_append]
  exact List.append_nil _

/-- Behind `history`, a publishing program was delivered nothing; if it succeeded, it has
published these. -/
def PublishPost (history : List IngestEvent) (prepared : List PreparedPublish)
    (after : List IngestEvent) (result : StatusOr Unit) : Prop :=
  delivered after = delivered history ∧ (∀ publish ∈ published history, publish ∈ published after) ∧
    (result = .ok () → ∀ publish ∈ prepared, publish ∈ published after)

theorem publishPrepared_safe
    (hpublish : ∀ history publish, rules.allowed history (.publish publish))
    (prepared : List PreparedPublish) (history : List IngestEvent) :
    Prog.Safe rules (PublishPost history prepared) history
      ((publishPrepared prepared).interp publishRow) := by
  induction prepared generalizing history with
  | nil => exact ⟨rfl,fun _ h => h,fun _ _ h => absurd h List.not_mem_nil⟩
  | cons publish prepared ih =>
    refine Prog.Safe.call_bind (hpublish _ _) fun answer _ => ?_
    cases answer with
    | error status =>
      refine ⟨delivered_publish,?_,fun h => by cases h⟩
      intro other ho
      rw [published_append]
      exact List.mem_append_left _ ho
    | ok _ =>
      refine Prog.Safe.mono ?_ (ih _)
      rintro after result ⟨hdel,hpub,hall⟩
      have hmem : ∀ other ∈ published history++[publish], other ∈ published after := by
        rwa [published_publish] at hpub
      refine ⟨hdel.trans delivered_publish,fun other ho => hmem other (List.mem_append_left _ ho),?_⟩
      intro hok other ho
      rcases List.mem_cons.mp ho with rfl | ho
      · exact hmem other (List.mem_append_right _ List.mem_cons_self)
      · exact hall hok other ho

/-- The batch succeeded only after every publish of every message did. -/
def ApplyPost (applier : UpdateApplierOptions) (history : List IngestEvent)
    (messages : List KafkaUpsertMessage) (after : List IngestEvent) (result : StatusOr Unit) : Prop :=
  delivered after = delivered history ∧ (∀ publish ∈ published history, publish ∈ published after) ∧
    (result = .ok () → ∀ message ∈ messages, ∃ prepared, prepare applier message = .ok prepared ∧
      ∀ publish ∈ prepared, publish ∈ published after)

theorem applyBatch_safe (hpublish : ∀ history publish, rules.allowed history (.publish publish))
    (messages : List KafkaUpsertMessage) (history : List IngestEvent) :
    Prog.Safe rules (ApplyPost applier history messages) history
      ((applyBatch applier messages).interp publishRow) := by
  induction messages generalizing history with
  | nil => exact ⟨rfl,fun _ h => h,fun _ _ h => absurd h List.not_mem_nil⟩
  | cons message messages ih =>
    rw [applyBatch,Prog.interp_bind]
    refine Prog.Safe.bind ?_
    cases hp : prepare applier message with
    | error status =>
      simp only [apply,hp]
      exact ⟨rfl,fun _ h => h,fun h => by cases h⟩
    | ok prepared =>
      simp only [apply,hp]
      refine Prog.Safe.mono ?_ (publishPrepared_safe hpublish prepared history)
      rintro mid result ⟨hdel,hpub,hall⟩
      cases result with
      | error status => exact ⟨hdel,hpub,fun h => by cases h⟩
      | ok _ =>
        refine Prog.Safe.mono ?_ (ih mid)
        rintro after result ⟨hdel',hpub',hall'⟩
        refine ⟨hdel'.trans hdel,fun other ho => hpub' other (hpub other ho),?_⟩
        intro hok other ho
        rcases List.mem_cons.mp ho with rfl | ho
        · exact ⟨prepared,hp,fun publish hpm => hpub' publish (hall rfl publish hpm)⟩
        · exact hall' hok other ho

theorem Converted.message {raws : List RawMessage} {messages : List KafkaUpsertMessage}
    (h : Converted raws messages) {raw : RawMessage} (hraw : raw ∈ raws) :
    ∃ message ∈ messages, convertMessage raw = .ok message := by
  induction h with
  | nil => cases hraw
  | @cons first message raws messages hfirst _ ih =>
    rcases List.mem_cons.mp hraw with rfl | hraw
    · exact ⟨message,List.mem_cons_self,hfirst⟩
    · obtain ⟨other,hmem,hconv⟩ := ih hraw
      exact ⟨other,List.mem_cons_of_mem _ hmem,hconv⟩

theorem Converted.raw {raws : List RawMessage} {messages : List KafkaUpsertMessage}
    (h : Converted raws messages) {message : KafkaUpsertMessage} (hmem : message ∈ messages) :
    ∃ raw ∈ raws, convertMessage raw = .ok message := by
  induction h with
  | nil => cases hmem
  | @cons raw first raws messages hfirst _ ih =>
    rcases List.mem_cons.mp hmem with rfl | hmem
    · exact ⟨raw,List.mem_cons_self,hfirst⟩
    · obtain ⟨other,hraw,hconv⟩ := ih hmem
      exact ⟨other,List.mem_cons_of_mem _ hraw,hconv⟩

theorem Converted.mayCommit {history : List IngestEvent} {messages : List KafkaUpsertMessage}
    (hc : Converted (delivered history) messages) {after : List IngestEvent}
    (h : ApplyPost applier history messages after (.ok ())) {checkpoint : KafkaCheckpoint}
    (hcp : CheckpointOf checkpoint messages) : MayCommit applier after checkpoint := by
  obtain ⟨hdel,-,hall⟩ := h
  refine ⟨?_,?_⟩
  · intro raw hraw
    rw [hdel] at hraw
    obtain ⟨message,hmem,hconv⟩ := hc.message hraw
    obtain ⟨prepared,hprep,hpub⟩ := hall rfl message hmem
    exact ⟨message,prepared,hconv,hprep,hpub⟩
  · intro position hp
    obtain ⟨message,hmem,hpart,hoffset⟩ := hcp.last position hp
    obtain ⟨raw,hraw,hconv⟩ := hc.raw hmem
    obtain ⟨hon,hraw_offset⟩ := convertMessage_on hconv
    rw [hpart] at hon
    rw [hdel]
    exact ⟨raw,hraw,hon,by rw [hraw_offset,hoffset]⟩

theorem poll_safe (hpoll : ∀ history timeoutMs, rules.allowed history (.consumerPoll timeoutMs))
    (options : PollOptions) :
    Prog.Safe rules
      (fun history result => ∀ batch, result = .ok batch → Converted (delivered history) batch)
      [] (KafkaUpdateConsumer.poll options) := by
  rw [KafkaUpdateConsumer.poll]
  cases validatePollOptions options with
  | error status =>
    intro batch hb
    cases hb
  | ok _ =>
    have hnone : Converted (delivered []) [] := List.Forall₂.nil
    refine Prog.Safe.bind (Prog.Safe.mono ?_
      (pollMessages_safe hpoll options.timeoutMs options.maxMessages hnone))
    intro history result h batch hb
    simp only [KafkaUpdateConsumer.checked,bind_eq_ok,pure_eq_ok,Except.ok.injEq] at hb
    obtain ⟨messages,hok,_,_,rfl⟩ := hb
    exact h messages hok

theorem commit_safe {history : List IngestEvent} {checkpoint : KafkaCheckpoint}
    (h : rules.allowed history (.commit checkpoint)) (post : List IngestEvent → Prop)
    (hpost : post history) (hcommit : ∀ answer, post (history++[⟨.commit checkpoint,answer⟩])) :
    Prog.Safe rules (fun history _ => post history) history
      (KafkaUpdateConsumer.commit checkpoint) := by
  rw [KafkaUpdateConsumer.commit]
  cases validateCheckpoint checkpoint with
  | error status => exact hpost
  | ok _ =>
    refine Prog.Safe.call_bind h fun answer _ => ?_
    cases answer with
    | error text => exact hcommit _
    | ok _ => exact hcommit _

/-- What a successful call has been delivered it has applied. -/
def CallPost (applier : UpdateApplierOptions) (history : List IngestEvent) (result : StatusOr Unit) :
    Prop :=
  result = .ok () → ∀ raw ∈ delivered history, Applied applier history raw

/-- A call may poll and publish, and commits nothing before it has applied everything that it was
delivered. -/
theorem pollApplyCommitOnce_safe (rules : Prog.Rules IngestRes) (coordinator : UpdateCoordinator)
    (hpoll : ∀ history timeoutMs, rules.allowed history (.consumerPoll timeoutMs))
    (hpublish : ∀ history publish, rules.allowed history (.publish publish))
    (hcommit : ∀ history checkpoint, MayCommit coordinator.applier history checkpoint →
      rules.allowed history (.commit checkpoint)) :
    Prog.Safe rules (CallPost coordinator.applier) [] (pollApplyCommitOnce coordinator) := by
  rw [pollApplyCommitOnce]
  cases validateCoordinatorOptions coordinator with
  | error status => exact fun h => by cases h
  | ok _ =>
    refine Prog.Safe.bind (Prog.Safe.mono ?_ (poll_safe hpoll coordinator.pollOptions))
    intro history result hconv
    cases result with
    | error status => exact fun h => by cases h
    | ok batch =>
      by_cases hempty : batch.isEmpty = true
      · simp only [hempty,if_true]
        intro _ raw hraw
        obtain ⟨message,hmem,-⟩ := (hconv batch rfl).message hraw
        rw [List.isEmpty_iff.mp hempty] at hmem
        cases hmem
      · simp only [hempty]
        cases hcheck : checkBatch coordinator batch with
        | error status => exact fun h => by cases h
        | ok checkpoint =>
          simp only [checkBatch,bind_eq_ok] at hcheck
          obtain ⟨_,_,hbuild⟩ := hcheck
          refine Prog.Safe.bind (Prog.Safe.mono ?_ (applyBatch_safe hpublish batch history))
          intro after applied hpost
          cases applied with
          | error status => exact fun h => by cases h
          | ok _ =>
            have hmay := (hconv batch rfl).mayCommit hpost (buildCommitCheckpoint_spec hbuild)
            have hsafe := commit_safe (hcommit after checkpoint hmay) (fun history =>
              ∀ raw ∈ delivered history, Applied coordinator.applier history raw) hmay.applied ?_
            · refine Prog.Safe.mono ?_ hsafe
              exact fun _ _ h _ => h
            intro answer raw hraw
            rw [delivered_append] at hraw
            have hold : raw ∈ delivered after := by simpa [delivered] using hraw
            refine (hmay.applied raw hold).mono fun publish hp => ?_
            rw [published_append]
            exact List.mem_append_left _ hp

end Call

/-- Every call is one of the coordinator, ended in any way or cut off. -/
def CoordinatorRun (coordinator : UpdateCoordinator) (calls : List (List IngestEvent)) : Prop :=
  ∀ call ∈ calls, ∃ out, Prog.Emits (pollApplyCommitOnce coordinator) call out

/-- librdkafka delivers the messages of a partition in the order of their offsets, which may
have gaps. -/
def PollsInOrder (events : List IngestEvent) : Prop :=
  ∀ partition, ((delivered events).filter (·.On partition)).Pairwise
    fun raw next => raw.offset.toInt < next.offset.toInt

/-- A log without gaps is delivered one message behind the other from the fetch position on. -/
def PollsFrom (fetch : KafkaPartition → ℤ) (events : List IngestEvent) : Prop :=
  ∀ partition (index : ℕ) raw, ((delivered events).filter (·.On partition))[index]? = some raw →
    raw.offset.toInt = fetch partition+index

/-- In every state of the run, what was delivered below a committed offset has been
applied to every target. -/
def NoLostUpdate (applier : UpdateApplierOptions) (events : List IngestEvent) : Prop :=
  ∀ state, state <+: events → ∀ checkpoint ∈ commits state,
    ∀ position ∈ checkpoint.nextOffsets, ∀ raw ∈ delivered state, raw.On position.partition →
      raw.offset.toInt < position.offset.toInt → Applied applier state raw

/-- No call is delivered a message of a partition while one that an earlier call was
delivered on it has not been applied. -/
def NothingLeftBehind (applier : UpdateApplierOptions) (calls : List (List IngestEvent)) : Prop :=
  ∀ before call after, calls = before++call::after → ∀ next ∈ delivered call,
    ∀ raw ∈ delivered before.flatten, raw.topic = next.topic → raw.partition = next.partition →
      Applied applier before.flatten raw

theorem mem_commits {events : List IngestEvent} {checkpoint : KafkaCheckpoint}
    (h : checkpoint ∈ commits events) : ⟨.commit checkpoint,.ok ()⟩ ∈ events := by
  obtain ⟨⟨op,answer⟩,hmem,heq⟩ := List.mem_filterMap.mp h
  cases op with
  | commit other =>
    cases answer with
    | error text => simp at heq
    | ok _ =>
      simp only [Option.some.injEq] at heq
      rwa [← heq]
  | _ => simp at heq

theorem flatten_eq_append_cons {α : Type} {calls : List (List α)} {before after : List α} {event : α}
    (h : calls.flatten = before++event::after) :
    ∃ earlier call later callBefore callAfter, calls = earlier++call::later ∧
      call = callBefore++event::callAfter ∧ before = earlier.flatten++callBefore := by
  induction calls generalizing before with
  | nil => simp at h
  | cons call calls ih =>
    rw [List.flatten_cons] at h
    rcases List.append_eq_append_iff.mp h with ⟨mid,hb,hrest⟩ | ⟨mid,hcall,hrest⟩
    · obtain ⟨earlier,call',later,callBefore,callAfter,rfl,hcall',rfl⟩ := ih hrest
      exact ⟨call::earlier,call',later,callBefore,callAfter,rfl,hcall',
        by rw [hb,List.flatten_cons,List.append_assoc]⟩
    · cases mid with
      | nil =>
        rw [List.append_nil] at hcall
        rw [List.nil_append] at hrest
        have hnext : calls.flatten = []++event::after := hrest.symm
        obtain ⟨earlier,call',later,callBefore,callAfter,rfl,hcall',hnil⟩ := ih hnext
        refine ⟨call::earlier,call',later,callBefore,callAfter,rfl,hcall',?_⟩
        rw [List.flatten_cons,List.append_assoc,← hnil,hcall,List.append_nil]
      | cons first mid =>
        rw [List.cons_append,List.cons.injEq] at hrest
        obtain ⟨rfl,-⟩ := hrest
        exact ⟨[],call,calls,before,mid,rfl,hcall,rfl⟩

theorem PollsFrom.inOrder {fetch : KafkaPartition → ℤ} {events : List IngestEvent}
    (h : PollsFrom fetch events) : PollsInOrder events := by
  intro partition
  refine List.pairwise_iff_getElem.mpr fun i j hi hj hlt => ?_
  have hfirst := h partition i _ (List.getElem?_eq_getElem hi)
  have hsecond := h partition j _ (List.getElem?_eq_getElem hj)
  omega

theorem PollsInOrder.lt {before after : List IngestEvent} (h : PollsInOrder (before++after))
    {partition : KafkaPartition} {raw next : RawMessage} (hraw : raw ∈ delivered before)
    (hnext : next ∈ delivered after) (hon : raw.On partition) (hon' : next.On partition) :
    raw.offset.toInt < next.offset.toInt := by
  have hpairs := h partition
  rw [delivered_append,List.filter_append,List.pairwise_append] at hpairs
  exact hpairs.2.2 raw (List.mem_filter.mpr ⟨hraw,by simpa using hon⟩) next
    (List.mem_filter.mpr ⟨hnext,by simpa using hon'⟩)

theorem PollsInOrder.of_isPrefix {before after : List IngestEvent}
    (h : PollsInOrder (before++after)) : PollsInOrder before := by
  intro partition
  have hpairs := h partition
  rw [delivered_append,List.filter_append,List.pairwise_append] at hpairs
  exact hpairs.1

/-- Commits lose no update in the runs that leave no failed message behind. -/
theorem coordinatorRun_noLostUpdate (coordinator : UpdateCoordinator)
    (calls : List (List IngestEvent)) (hrun : CoordinatorRun coordinator calls)
    (hpolls : PollsInOrder calls.flatten)
    (hleft : NothingLeftBehind coordinator.applier calls) :
    NoLostUpdate coordinator.applier calls.flatten := by
  rintro state ⟨rest,hstate⟩ checkpoint hcommit position hposition raw hraw hon hlt
  obtain ⟨before,after,rfl⟩ := List.append_of_mem (mem_commits hcommit)
  rw [← hstate] at hpolls
  have hflat : calls.flatten = before++⟨.commit checkpoint,.ok ()⟩::(after++rest) := by
    rw [← hstate,List.append_assoc,List.cons_append]
  obtain ⟨earlier,call,later,callBefore,callAfter,hcalls,hcall,rfl⟩ := flatten_eq_append_cons hflat
  -- the call that committed had applied all that it was delivered
  obtain ⟨out,hemits⟩ := hrun call (by rw [hcalls]; simp)
  have hsafe := (pollApplyCommitOnce_safe (callRules coordinator.applier) coordinator
    (fun _ _ => trivial) (fun _ _ => trivial) (fun _ _ h => h)).emits hemits (fun _ _ _ _ => trivial)
  have hmay : MayCommit coordinator.applier callBefore checkpoint :=
    hsafe.1 callBefore _ callAfter hcall
  obtain ⟨last,hlast,hlastOn,hoffset⟩ := hmay.last position hposition
  rw [delivered_append,List.mem_append] at hraw
  rcases hraw with hraw | hraw
  · rw [delivered_append,List.mem_append] at hraw
    rcases hraw with hraw | hraw
    · have hcallDelivered : last ∈ delivered call := by
        rw [hcall,delivered_append]
        exact List.mem_append_left _ hlast
      refine (hleft earlier call later hcalls last hcallDelivered raw hraw
        (hon.1.trans hlastOn.1.symm) (hon.2.trans hlastOn.2.symm)).mono ?_
      intro publish hp
      rw [published_append,published_append]
      exact List.mem_append_left _ (List.mem_append_left _ hp)
    · refine (hmay.applied raw hraw).mono ?_
      intro publish hp
      rw [published_append,published_append]
      exact List.mem_append_left _ (List.mem_append_right _ hp)
  · -- what comes behind the commit has greater offsets
    have hlast' : last ∈ delivered (earlier.flatten++callBefore) := by
      rw [delivered_append]
      exact List.mem_append_right _ hlast
    have := hpolls.of_isPrefix.lt hlast' hraw hlastOn hon
    omega

/-- A consumer with these messages to deliver, and tables to publish to. -/
structure SampleWorld where
  pending : List RawMessage
  tables : Tables := fun _ => RealtimeDeltaAtomicTable.sampleTable 4

def SampleWorld.handle : (op : IngestOp) → SampleWorld → IngestRes op×SampleWorld
  | .consumerPoll _,world => (world.pending.head?,{ world with pending := world.pending.tail })
  | .publish publish,world =>
    let (status,tables) := publishTo publish world.tables
    (status,{ world with tables })
  | .seekPartitions _,world => (.ok (),world)
  | .assignment,world => (.ok [],world)
  | .committed _,world => (.ok [],world)
  | .queryWatermarkOffsets _,world => (.ok (0,0),world)
  | .commit _,world => (.ok (),world)

def sampleRaw (key : Bytes) (offset : Int64) : RawMessage where
  topic := some [116]
  offset := offset
  key := key
  payload := (sampleMessage 0 offset).payload

def sampleCoordinator : UpdateCoordinator where
  applier := sampleApplier
  logicalTopic := [116]

def sampleCalls (first second : RawMessage) : List (List IngestEvent) :=
  let world : SampleWorld := { pending := [first,second] }
  [(pollApplyCommitOnce sampleCoordinator).trace SampleWorld.handle world,
   (pollApplyCommitOnce sampleCoordinator).trace SampleWorld.handle
    ((pollApplyCommitOnce sampleCoordinator).run SampleWorld.handle world).2]

theorem sampleCalls_run (first second : RawMessage) :
    CoordinatorRun sampleCoordinator (sampleCalls first second) := by
  intro call hcall
  simp only [sampleCalls,List.mem_cons,List.not_mem_nil,or_false] at hcall
  rcases hcall with rfl | rfl
  · exact ⟨_,Prog.trace_emits _ _ _⟩
  · exact ⟨_,Prog.trace_emits _ _ _⟩

theorem sampleCalls_polls {first second : Bytes}
    (h : delivered (sampleCalls (sampleRaw first 0) (sampleRaw second 1)).flatten =
      [sampleRaw first 0,sampleRaw second 1]) :
    PollsFrom (fun _ => 0) (sampleCalls (sampleRaw first 0) (sampleRaw second 1)).flatten := by
  intro partition index raw hraw
  rw [h] at hraw
  by_cases hon : (sampleRaw first 0).On partition
  · have hon' : (sampleRaw second 1).On partition := hon
    simp only [List.filter_cons,hon,hon',decide_true,if_true,List.filter_nil] at hraw
    match index,hraw with
    | 0,hraw =>
      cases hraw
      show (0 : Int64).toInt = 0+((0 : ℕ) : ℤ)
      decide
    | 1,hraw =>
      cases hraw
      show (1 : Int64).toInt = 0+((1 : ℕ) : ℤ)
      decide
  · have hon' : ¬(sampleRaw second 1).On partition := hon
    simp [hon,hon'] at hraw

/-- A key that is not decimal fails its poll; the next call commits past it. -/
theorem coordinatorRun_losesUpdate :
    ¬∀ (coordinator : UpdateCoordinator) (calls : List (List IngestEvent)),
      CoordinatorRun coordinator calls → ∀ fetch : KafkaPartition → ℤ,
      PollsFrom fetch calls.flatten → NoLostUpdate coordinator.applier calls.flatten := by
  intro h
  have hdelivered : delivered (sampleCalls (sampleRaw [120] 0) (sampleRaw [55] 1)).flatten =
      [sampleRaw [120] 0,sampleRaw [55] 1] := by
    decide +kernel
  have hcommits : commits (sampleCalls (sampleRaw [120] 0) (sampleRaw [55] 1)).flatten =
      [⟨[⟨⟨[116],0⟩,2⟩]⟩] := by
    decide +kernel
  have hlost : ¬Applied sampleApplier
      (sampleCalls (sampleRaw [120] 0) (sampleRaw [55] 1)).flatten (sampleRaw [120] 0) := by
    decide +kernel
  refine hlost (h sampleCoordinator _ (sampleCalls_run _ _) _ (sampleCalls_polls hdelivered) _
    (List.prefix_refl _) ⟨[⟨⟨[116],0⟩,2⟩]⟩ ?_ ⟨⟨[116],0⟩,2⟩ (List.mem_singleton.mpr rfl)
    (sampleRaw [120] 0) ?_ (by decide) (by decide))
  · rw [hcommits]
    exact List.mem_singleton.mpr rfl
  · rw [hdelivered]
    exact List.mem_cons_self

theorem coordinatorRun_noLostUpdate_sample :
    commits (sampleCalls (sampleRaw [55] 0) (sampleRaw [55] 1)).flatten =
      [⟨[⟨⟨[116],0⟩,1⟩]⟩,⟨[⟨⟨[116],0⟩,2⟩]⟩] ∧
    NoLostUpdate sampleApplier (sampleCalls (sampleRaw [55] 0) (sampleRaw [55] 1)).flatten := by
  refine ⟨by decide +kernel,coordinatorRun_noLostUpdate sampleCoordinator _ (sampleCalls_run _ _)
    (sampleCalls_polls (by decide +kernel)).inOrder ?_⟩
  have hfirst : ∀ raw ∈ delivered ((pollApplyCommitOnce sampleCoordinator).trace SampleWorld.handle
      { pending := [sampleRaw [55] 0,sampleRaw [55] 1] }),
      Applied sampleApplier ((pollApplyCommitOnce sampleCoordinator).trace SampleWorld.handle
        { pending := [sampleRaw [55] 0,sampleRaw [55] 1] }) raw := by
    decide +kernel
  intro before call after hcalls next _ raw hraw _ _
  match before,hcalls with
  | [],_ => cases hraw
  | [first],hcalls =>
    rw [sampleCalls,List.singleton_append,List.cons.injEq] at hcalls
    obtain ⟨rfl,-⟩ := hcalls
    rw [List.flatten_singleton] at hraw ⊢
    exact hfirst raw hraw
  | _::_::_,hcalls => simp [sampleCalls] at hcalls

end Ingest
end KvIndex
