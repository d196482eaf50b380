import KvIndex.ArtifactPath
import KvIndex.ArtifactWriter
import KvIndex.Effects
import KvIndex.ParquetTable

/-! `BuildArtifactDirectory` (`tools/offline/src/offline_artifact_builder.cc`): the schema file and
all tables are read, every row is encoded and given to the shard of its key, and only then the
output directory is written. The file system and the Parquet reader are operations of the
environment. -/
namespace KvIndex
namespace Offline

open Base Artifact

structure BuildArtifactOptions where
  schemaPath : Bytes := []
  inputPath : Bytes := []
  outputPath : Bytes := []
  artifactId : Bytes := []
  shardCount : Option UInt32 := none
  hashSeed : Option UInt64 := none
  hashVersion : Option UInt32 := none
  schemaVersion : Option UInt64 := none
  omitSourceProgress : Bool := false

structure BuildArtifactResult where
  rowCount : ℕ := 0
  shardCount : UInt32 := 0
  hashSeed : UInt64 := 0
  hashVersion : UInt32 := 1
  schemaVersion : UInt64 := 0
  rowsPerShard : List ℕ := []
  parquetFiles : List Bytes := []
  deriving DecidableEq

/-- What the Parquet reader makes of a file, with the texts of its errors. -/
inductive ParquetAnswer
  | openFailed (error : String)
  | buildFailed (error : String)
  | readFailed (error : String)
  | nullTable
  | table (table : ArrowTable)

/-- What `mkdir` answers; `exists` is `EEXIST`. -/
inductive MkdirAnswer
  | made
  | alreadyThere
  | failed (error : String)

inductive WriteAnswer
  | written
  | openFailed
  | writeFailed
  deriving DecidableEq

inductive BuildOp
  | readSchema (path : Bytes)
  | stat (path : Bytes)
  | openDirectory (path : Bytes)
  | readParquet (path : Bytes)
  | makeDirectory (path : Bytes)
  | writeFile (path contents : Bytes)

abbrev BuildRes : BuildOp → Type
  | .readSchema _ => Option Bytes
  | .stat _ => FileStat
  | .openDirectory _ => Except String (List Bytes)
  | .readParquet _ => ParquetAnswer
  | .makeDirectory _ => MkdirAnswer
  | .writeFile _ _ => WriteAnswer

abbrev Building := Prog BuildRes

abbrev BuildEvent := Prog.Event BuildRes

/-- A part of the build, which may return a status, or stop for want of depth. -/
abbrev BuildPart := ExceptT (Option Status) Building

def perform (op : BuildOp) : BuildPart (BuildRes op) := ExceptT.lift (Prog.call op)

def orReturn {α : Type} : StatusOr α → BuildPart α
  | .error status => throw (some status)
  | .ok a => pure a

def checkOptions (options : BuildArtifactOptions) : StatusOr Unit := do
  failIf options.schemaPath.isEmpty (.invalidArgument "schema path is required")
  failIf options.inputPath.isEmpty (.invalidArgument "input path is required")
  failIf options.outputPath.isEmpty (.invalidArgument "output path is required")
  failIf options.artifactId.isEmpty (.invalidArgument "artifact id is required")

/-- What an option that was not given takes from the schema file, or its default. -/
structure BuildSettings where
  schemaVersion : UInt64
  shardCount : UInt32
  hashSeed : UInt64
  hashVersion : UInt32

def buildSettings (options : BuildArtifactOptions) (config : ParsedSchemaConfig) :
    StatusOr BuildSettings := do
  let schemaVersion := options.schemaVersion.getD (config.schemaVersion+1)
  let shardCount := options.shardCount.getD (config.shardCount.getD 128)
  let hashSeed := options.hashSeed.getD (config.hashSeed.getD 0)
  let hashVersion := options.hashVersion.getD (config.hashVersion.getD 1)
  failIf (!isPowerOfTwo shardCount.toNat)
    (.invalidArgument "shard_count must be a non-zero power of two")
  failIf (hashVersion == 0) (.invalidArgument "hash_version must be non-zero")
  failIf (schemaVersion == 0) (.invalidArgument "schema_version must be non-zero")
  return { schemaVersion,shardCount,hashSeed,hashVersion }

def buildRuntimeSchema (config : ParsedSchemaConfig) (schemaVersion : UInt64) :
    StatusOr RuntimeSchema :=
  config.fields.foldlM RuntimeSchema.addField { version := schemaVersion }

/-- The order of `std::string`, whose characters compare as unsigned. -/
def pathLE (lhs rhs : Bytes) : Prop := lhs.map UInt8.toNat ≤ rhs.map UInt8.toNat

instance : DecidableRel pathLE := fun lhs rhs =>
  inferInstanceAs (Decidable (lhs.map UInt8.toNat ≤ rhs.map UInt8.toNat))

def childrenOf (path : Bytes) (names : List Bytes) : List Bytes :=
  ((names.filter fun name => !name.isEmpty && name.head? != some 46).map
    (joinPath path)).insertionSort pathLE

/-- `CollectParquetFilesRecursive` for directories of at most this depth. -/
def collectParquetFilesRecursive : ℕ → Bytes → List Bytes → BuildPart (List Bytes)
  | 0, _, _ => throw none
  | depth+1, path, files => do
    match ← perform (.stat path) with
    | .missing => throw (some (.notFound "input path does not exist"))
    | .failed _ => throw (some (.notFound "input path does not exist"))
    | .regular => return if ascii ".parquet" <:+ path then files++[path] else files
    | .other => throw (some (.invalidArgument "input path is neither file nor directory"))
    | .directory =>
      match ← perform (.openDirectory path) with
      | .error error =>
        throw (some (.unavailable ("failed to open input directory: "++error)))
      | .ok names =>
        let children := childrenOf path names
        children.foldlM (fun files child => collectParquetFilesRecursive depth child files) files

def collectParquetFiles (depth : ℕ) (inputPath : Bytes) : BuildPart (List Bytes) := do
  let files ← collectParquetFilesRecursive depth inputPath []
  orReturn (failIf files.isEmpty (.notFound "no parquet files found under input path"))
  return files

def readSchemaFile (path : Bytes) : BuildPart ParsedSchemaConfig := do
  match ← perform (.readSchema path) with
  | none => throw (some (.notFound "schema file not found"))
  | some text => orReturn (parseSchemaFile text)

/-- The table of a file, with the contexts of `ArrowStatusToKv`. -/
def readParquetFile (path : Bytes) : BuildPart ArrowTable := do
  match ← perform (.readParquet path) with
  | .openFailed error =>
    throw (some (.invalidArgument ("failed to open parquet file: "++error)))
  | .buildFailed error =>
    throw (some (.invalidArgument ("failed to create parquet reader: "++error)))
  | .readFailed error =>
    throw (some (.invalidArgument ("failed to read parquet file: "++error)))
  | .nullTable => throw (some (.invalidArgument "parquet reader returned a null table"))
  | .table table => return table

/-- What `ReadParquetFileIntoSpec` works on. -/
structure BuildState where
  spec : ArtifactBuildSpec
  seen : List UInt64 := []
  result : BuildArtifactResult

def shardOf (spec : ArtifactBuildSpec) (primaryKey : UInt64) : ℕ :=
  (stableHash64 primaryKey spec.hashSeed spec.hashVersion).toNat &&& (spec.shardCount.toNat-1)

def BuildState.pushRow (state : BuildState) (shardId : ℕ) (row : SnapshotRow) : BuildState where
  spec := { state.spec with
    shards := state.spec.shards.modify shardId fun shard =>
      { shard with rows := shard.rows++[row] } }
  seen := row.primaryKey::state.seen
  result := { state.result with
    rowCount := state.result.rowCount+1
    rowsPerShard := state.result.rowsPerShard.modify shardId (·+1) }

/-- One round of the row loop of `ReadParquetFileIntoSpec`. -/
def readRow (config : ParsedSchemaConfig) (layout : CompiledRowLayout) (columns : TableColumns)
    (state : BuildState) (rowIndex : ℕ) : StatusOr BuildState := do
  let primaryKey ← readPrimaryKey columns.primaryKey rowIndex config.primaryKeyName
  failIf (state.seen.contains primaryKey)
    (.failedPrecondition "duplicate primary key in full artifact")
  let values ← readRowValues layout columns rowIndex
  let encoded ← encodeRow layout (emplaced values)
  return state.pushRow (shardOf state.spec primaryKey) { primaryKey,encoded }

def readTableIntoSpec (config : ParsedSchemaConfig) (layout : CompiledRowLayout)
    (state : BuildState) (table : ArrowTable) : StatusOr BuildState := do
  let columns ← resolveTableColumns table config layout
  (List.range table.numRows).foldlM (readRow config layout columns) state

def readParquetFileIntoSpec (config : ParsedSchemaConfig) (layout : CompiledRowLayout)
    (state : BuildState) (path : Bytes) : BuildPart BuildState := do
  let table ← readParquetFile path
  orReturn (readTableIntoSpec config layout state table)

def emptyBuild (options : BuildArtifactOptions) (settings : BuildSettings)
    (layout : CompiledRowLayout) (parquetFiles : List Bytes) : BuildState where
  spec := {
    artifactId := options.artifactId,shardCount := settings.shardCount
    hashSeed := settings.hashSeed,hashVersion := settings.hashVersion,layout := some layout
    includeSourceProgressSection := !options.omitSourceProgress
    shards := (List.range settings.shardCount.toNat).map fun shardId =>
      { shardId := UInt32.ofNat shardId } }
  result := {
    shardCount := settings.shardCount,hashSeed := settings.hashSeed
    hashVersion := settings.hashVersion,schemaVersion := settings.schemaVersion
    rowsPerShard := List.replicate settings.shardCount.toNat 0,parquetFiles }

def readInputs (options : BuildArtifactOptions) (depth : ℕ) :
    BuildPart (ParsedSchemaConfig×BuildState) := do
  orReturn (checkOptions options)
  let config ← readSchemaFile options.schemaPath
  let settings ← orReturn (buildSettings options config)
  let schema ← orReturn (buildRuntimeSchema config settings.schemaVersion)
  let layout := CompiledRowLayout.compile schema
  let parquetFiles ← collectParquetFiles depth options.inputPath
  let state ← parquetFiles.foldlM (readParquetFileIntoSpec config layout)
    (emptyBuild options settings layout parquetFiles)
  return (config,state)

def requireDirectory (path : Bytes) : BuildPart Bytes := do
  match ← perform (.stat path) with
  | .directory => return path
  | _ => throw (some (.invalidArgument "output path component is not a directory"))

/-- One component of the loop of `MakeDirs`, behind those that make up `current`. -/
def makeDirsPart (current part : Bytes) : BuildPart Bytes :=
  if part.isEmpty then pure current
  else do
    let current := if current == ascii "/" then current++part else joinPath current part
    match ← perform (.makeDirectory current) with
    | .failed error => throw (some (.unavailable ("failed to create directory: "++error)))
    | .made => requireDirectory current
    | .alreadyThere => requireDirectory current

def makeDirs (path : Bytes) : BuildPart Unit := do
  orReturn (failIf path.isEmpty (.invalidArgument "directory path is empty"))
  let start := if path.head? = some 47 then ascii "/" else []
  discard ((path.splitOn 47).foldlM makeDirsPart start)

def writeOutput (path contents : Bytes) (openFailed writeFailed : String) : BuildPart Unit := do
  match ← perform (.writeFile path contents) with
  | .written => return ()
  | .openFailed => throw (some (.unavailable openFailed))
  | .writeFailed => throw (some (.unavailable writeFailed))

def schemaFilePath (options : BuildArtifactOptions) : Bytes :=
  joinPath options.outputPath (ascii "schema.yaml")

def shardFilePath (options : BuildArtifactOptions) (shardId : UInt32) : Bytes :=
  joinPath options.outputPath (shardFileName shardId)

def writeShard (options : BuildArtifactOptions) (spec : ArtifactBuildSpec) (shardId : UInt32) :
    BuildPart Unit := do
  let contents ← orReturn (writeArtifactShard spec shardId)
  writeOutput (shardFilePath options shardId) contents "failed to open artifact for writing"
    "failed to write artifact"

def writeOutputs (options : BuildArtifactOptions) (config : ParsedSchemaConfig)
    (state : BuildState) : BuildPart BuildArtifactResult := do
  makeDirs options.outputPath
  let result := state.result
  writeOutput (schemaFilePath options)
    (writeSchemaFile config result.schemaVersion result.shardCount result.hashSeed
      result.hashVersion)
    "failed to open output schema file" "failed to write output schema file"
  (List.range result.shardCount.toNat).forM fun shardId =>
    writeShard options state.spec (UInt32.ofNat shardId)
  return result

def buildArtifactDirectory (options : BuildArtifactOptions) (depth : ℕ) :
    BuildPart BuildArtifactResult := do
  let (config,state) ← readInputs options depth
  writeOutputs options config state

end Offline
end KvIndex
