import KvIndex.BlindRuns
import KvIndex.BuildRun
import KvIndex.TableContents

/-! What a build depends on. Two file systems that say the same lead to the same build: it does not
see in which order a directory lists its names, nor how the tables of the Parquet files are laid
out. -/
namespace KvIndex
namespace Offline

open Base Artifact Prog

/-- The same answer of the Parquet reader, but for the layout of a table. -/
inductive SameParquet : ParquetAnswer → ParquetAnswer → Prop
  | refl (answer : ParquetAnswer) : SameParquet answer answer
  | table {table table' : ArrowTable} (h : table.Alike table') :
    SameParquet (.table table) (.table table')

/-- The same names, in whatever order. -/
inductive SameListing : Except String (List Bytes) → Except String (List Bytes) → Prop
  | refl (answer : Except String (List Bytes)) : SameListing answer answer
  | names {names names' : List Bytes} (h : names.Perm names') : SameListing (.ok names) (.ok names')

/-- Answers to an operation of the build that say the same. -/
def SameContents : (op : BuildOp) → BuildRes op → BuildRes op → Prop
  | .openDirectory _, answer, answer' => SameListing answer answer'
  | .readParquet _, answer, answer' => SameParquet answer answer'
  | .readSchema _, answer, answer' => answer = answer'
  | .stat _, answer, answer' => answer = answer'
  | .makeDirectory _, answer, answer' => answer = answer'
  | .writeFile _ _, answer, answer' => answer = answer'

theorem pathLE_total (lhs rhs : Bytes) : pathLE lhs rhs ∨ pathLE rhs lhs := le_total _ _

instance : Std.Total pathLE := ⟨pathLE_total⟩

instance : IsTrans Bytes pathLE := ⟨fun _ _ _ => le_trans⟩

instance : Std.Antisymm pathLE := ⟨fun _ _ h h' =>
  List.map_injective_iff.mpr (fun _ _ => UInt8.toNat_inj.mp) (le_antisymm h h')⟩

theorem childrenOf_perm (path : Bytes) {names names' : List Bytes} (h : names.Perm names') :
    childrenOf path names = childrenOf path names' := by
  have hpaths := (h.filter fun name => !name.isEmpty && name.head? != some 46).map (joinPath path)
  have hsorted := (List.perm_insertionSort pathLE _).trans
    (hpaths.trans (List.perm_insertionSort pathLE _).symm)
  exact hsorted.eq_of_pairwise' (List.pairwise_insertionSort pathLE _)
    (List.pairwise_insertionSort pathLE _)

section Parts

theorem blind_orReturn {α : Type} (x : StatusOr α) : Blind SameContents (orReturn x).run := by
  cases x with
  | error status => exact Blind.throw _
  | ok a => exact Blind.pure a

theorem readSchemaFile_blind (path : Bytes) : Blind SameContents (readSchemaFile path).run := by
  refine Blind.seq (Blind.lift fun _ _ => id) fun answer => ?_
  cases answer with
  | none => exact Blind.throw _
  | some text => exact blind_orReturn _

theorem collectParquetFilesRecursive_blind (depth : ℕ) (path : Bytes) (files : List Bytes) :
    Blind SameContents (collectParquetFilesRecursive depth path files).run := by
  induction depth generalizing path files with
  | zero => exact Blind.throw _
  | succ depth ih =>
    refine Blind.seq (Blind.lift fun _ _ => id) fun answer => ?_
    cases answer with
    | regular => exact Blind.pure _
    | directory =>
      refine Blind.call_seq (fun listing listing' hlisting => ?_) fun listing => ?_
      · cases hlisting with
        | refl => rfl
        | names h =>
          show List.foldlM _ files (childrenOf path _) = List.foldlM _ files (childrenOf path _)
          rw [childrenOf_perm path h]
      · cases listing with
        | error error => exact Blind.throw _
        | ok names => exact Blind.foldlM (fun files child => ih child files) _ _
    | _ => exact Blind.throw _

theorem collectParquetFiles_blind (depth : ℕ) (path : Bytes) :
    Blind SameContents (collectParquetFiles depth path).run :=
  Blind.seq (collectParquetFilesRecursive_blind depth path []) fun _ =>
    Blind.seq (blind_orReturn _) fun _ => Blind.pure _

/-- A table is read to its rows at once, so that its layout is not seen. -/
theorem readParquetFileIntoSpec_blind (config : ParsedSchemaConfig) (layout : CompiledRowLayout)
    (state : BuildState) (path : Bytes) :
    Blind SameContents (readParquetFileIntoSpec config layout state path).run := by
  refine ⟨fun answer answer' hanswer => ?_,fun answer => ?_⟩
  · cases hanswer with
    | refl => rfl
    | table h =>
      exact congrArg (fun state => (orReturn state).run) (readTableIntoSpec_alike h state)
  · cases answer with
    | table table => exact blind_orReturn (readTableIntoSpec config layout state table)
    | _ => exact trivial

theorem readInputs_blind (options : BuildArtifactOptions) (depth : ℕ) :
    Blind SameContents (readInputs options depth).run := by
  refine Blind.seq (blind_orReturn _) fun _ => ?_
  refine Blind.seq (readSchemaFile_blind _) fun config => ?_
  refine Blind.seq (blind_orReturn _) fun settings => ?_
  refine Blind.seq (blind_orReturn _) fun schema => ?_
  refine Blind.seq (collectParquetFiles_blind _ _) fun files => ?_
  refine Blind.seq (Blind.foldlM (readParquetFileIntoSpec_blind config _) _ _) fun state => ?_
  exact Blind.pure _

theorem requireDirectory_blind (path : Bytes) :
    Blind SameContents (requireDirectory path).run := by
  refine Blind.seq (Blind.lift fun _ _ => id) fun answer => ?_
  cases answer with
  | directory => exact Blind.pure _
  | _ => exact Blind.throw _

theorem makeDirsPart_blind (current part : Bytes) :
    Blind SameContents (makeDirsPart current part).run := by
  rw [makeDirsPart]
  by_cases hpart : part.isEmpty = true
  · rw [if_pos hpart]
    exact Blind.pure _
  · rw [if_neg hpart]
    refine Blind.seq (Blind.lift fun _ _ => id) fun answer => ?_
    cases answer with
    | failed error => exact Blind.throw _
    | made => exact requireDirectory_blind _
    | alreadyThere => exact requireDirectory_blind _

theorem makeDirs_blind (path : Bytes) : Blind SameContents (makeDirs path).run := by
  refine Blind.seq (blind_orReturn _) fun _ => ?_
  exact Blind.seq (Blind.foldlM makeDirsPart_blind _ _) fun _ => Blind.pure _

theorem writeOutput_blind (path contents : Bytes) (openFailed writeFailed : String) :
    Blind SameContents (writeOutput path contents openFailed writeFailed).run := by
  refine Blind.seq (Blind.lift fun _ _ => id) fun answer => ?_
  cases answer with
  | written => exact Blind.pure _
  | _ => exact Blind.throw _

theorem writeOutputs_blind (options : BuildArtifactOptions) (config : ParsedSchemaConfig)
    (state : BuildState) : Blind SameContents (writeOutputs options config state).run := by
  refine Blind.seq (makeDirs_blind _) fun _ => ?_
  refine Blind.seq (writeOutput_blind _ _ _ _) fun _ => ?_
  refine Blind.seq (Blind.forM (fun shardId => ?_) _) fun _ => Blind.pure _
  exact Blind.seq (blind_orReturn _) fun contents => writeOutput_blind _ _ _ _

theorem buildArtifactDirectory_blind (options : BuildArtifactOptions) (depth : ℕ) :
    Blind SameContents (buildArtifactDirectory options depth).run :=
  Blind.seq (readInputs_blind options depth) fun inputs =>
    writeOutputs_blind options inputs.1 inputs.2

end Parts

section Contents

theorem SameContents.symm (op : BuildOp) (answer answer' : BuildRes op)
    (h : SameContents op answer answer') : SameContents op answer' answer := by
  cases op with
  | openDirectory path =>
    cases h with
    | refl => exact SameListing.refl _
    | names h => exact SameListing.names h.symm
  | readParquet path =>
    cases h with
    | refl => exact SameParquet.refl _
    | table h => exact SameParquet.table ⟨h.numRows.symm,fun name => (h.columns name).symm⟩
  | _ => exact Eq.symm h

theorem filesWritten_alike {events events' : List BuildEvent}
    (h : List.Forall₂ (AlikeEvents SameContents) events events') :
    filesWritten events = filesWritten events' := by
  induction h with
  | nil => rfl
  | @cons event event' rest rest' hevent _ ih =>
    obtain ⟨op,answer,answer',rfl,rfl,hanswer⟩ := hevent
    have hfirst : filesWritten [⟨op,answer⟩] = filesWritten [⟨op,answer'⟩] := by
      cases op with
      | writeFile path contents => rw [show answer = answer' from hanswer]
      | _ => rfl
    have hall := congrArg₂ (·++·) hfirst ih
    rw [← filesWritten_append,← filesWritten_append] at hall
    exact hall

end Contents

/-- A build depends only on what its inputs say. Where two file systems answer with the same names
in any order, and with tables of the same rows, they lead to the same build: each ends where the
other ends, with the same result or the same status, and they have written the same bytes to the
same files. -/
theorem build_depends_on_contents (options : BuildArtifactOptions) (depth : ℕ)
    (events events' : List BuildEvent)
    (out : Option (Except (Option Status) BuildArtifactResult))
    (h : List.Forall₂ (AlikeEvents SameContents) events events') :
    (Emits (buildArtifactDirectory options depth).run events out ↔
        Emits (buildArtifactDirectory options depth).run events' out) ∧
      filesWritten events = filesWritten events' := by
  have hblind := buildArtifactDirectory_blind options depth
  have hback := AlikeEvents.flip SameContents.symm h
  exact ⟨⟨hblind.emits h,hblind.emits hback⟩,filesWritten_alike h⟩

/-- The sample table with its columns in the other order, one of them in two chunks. -/
def splitTable : ArrowTable where
  numRows := 2
  columns := [([118],[.flat (.uint64 [some 5]),.flat (.uint64 [none])]),
    ([107],[.flat (.uint64 [some 7,some 5])])]
  rows := by decide

theorem sampleTable_alike : sampleTable.Alike splitTable where
  numRows := rfl
  columns name := by
    by_cases hkey : name = [107]
    · subst hkey
      decide
    · by_cases hvalue : name = [118]
      · subst hvalue
        decide
      · have hnone : sampleTable.getColumnByName name = none := by
          simp [ArrowTable.getColumnByName,sampleTable,Ne.symm hkey,Ne.symm hvalue]
        have hnone' : splitTable.getColumnByName name = none := by
          simp [ArrowTable.getColumnByName,splitTable,Ne.symm hkey,Ne.symm hvalue]
        rw [hnone,hnone']

def listedAnswer (names : List Bytes) (table : ArrowTable) :
    (op : BuildOp) → Unit → BuildRes op×Unit
  | .readSchema _, world => (some sampleText,world)
  | .stat path, world => (if path = [105] ∨ path = [111] then .directory else .regular,world)
  | .openDirectory _, world => (.ok names,world)
  | .readParquet _, world => (.table table,world)
  | .makeDirectory _, world => (.made,world)
  | .writeFile _ _, world => (.written,world)

theorem listedAnswer_same {names names' : List Bytes} {table table' : ArrowTable}
    (hnames : names.Perm names') (htable : table.Alike table') (op : BuildOp) :
    SameContents op (listedAnswer names table op ()).1 (listedAnswer names' table' op ()).1 := by
  cases op with
  | openDirectory path => exact SameListing.names hnames
  | readParquet path => exact SameParquet.table htable
  | _ => exact rfl

def listedOptions : BuildArtifactOptions := { sampleOptions with inputPath := [105] }

def listedBuild (names : List Bytes) (table : ArrowTable) : List BuildEvent :=
  (buildArtifactDirectory listedOptions 2).run.trace (listedAnswer names table) ()

def listedResult : Except (Option Status) BuildArtifactResult :=
  ((buildArtifactDirectory listedOptions 2).run.run
    (listedAnswer [[110],ascii "t.parquet"] sampleTable) ()).1

theorem build_depends_on_contents_sample :
    (Emits (buildArtifactDirectory listedOptions 2).run
          (listedBuild [[110],ascii "t.parquet"] sampleTable) (some listedResult) ↔
        Emits (buildArtifactDirectory listedOptions 2).run
          (listedBuild [ascii "t.parquet",[110]] splitTable) (some listedResult)) ∧
      filesWritten (listedBuild [[110],ascii "t.parquet"] sampleTable) =
        filesWritten (listedBuild [ascii "t.parquet",[110]] splitTable) :=
  build_depends_on_contents listedOptions 2 _ _ (some listedResult)
    ((buildArtifactDirectory_blind listedOptions 2).trace (fun _ _ => True)
      (fun op _ _ _ => ⟨listedAnswer_same (List.Perm.swap _ _ []) sampleTable_alike op,trivial⟩)
      trivial)

end Offline
end KvIndex
