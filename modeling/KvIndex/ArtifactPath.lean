import KvIndex.SchemaTextRoundTrip

/-! Where the loader finds the file of a shard (`artifact/mmap_snapshot_backing.cc`). An artifact
is one file, or a directory with a file for each shard. -/
namespace KvIndex
namespace Artifact

open Base Offline

/-- What `stat` says of a path; a missing path is `ENOENT`. -/
inductive FileStat
  | missing
  | failed (error : String)
  | regular
  | directory
  | other
  deriving DecidableEq

/-- What `open`, `fstat` and `mmap` make of a path. -/
inductive FileContents
  | missing
  | openFailed (error : String)
  | statFailed (error : String)
  | mapFailed (error : String)
  | bytes (contents : Bytes)
  deriving DecidableEq

structure FileSystem where
  stat : Bytes → FileStat
  contents : Bytes → FileContents

def resolveLocalPath (artifactUri : Bytes) : StatusOr Bytes := do
  failIf (ascii "://" <:+: artifactUri && !(ascii "file://" <+: artifactUri : Bool))
    (.invalidArgument "unsupported artifact uri scheme")
  let path := if ascii "file://" <+: artifactUri then artifactUri.drop (ascii "file://").length
    else artifactUri
  failIf path.isEmpty (.invalidArgument "artifact path is empty")
  return path

/-- `JoinPath`, in the words of the loader and of the offline builder alike. -/
def joinPath (lhs rhs : Bytes) : Bytes :=
  if lhs.isEmpty || lhs == ascii "/" then lhs++rhs else lhs++(ascii "/"++rhs)

/-- `ShardFileName`, for both: the number fills five places with zeros in front. -/
def shardFileName (shardId : UInt32) : Bytes :=
  ascii "shard_"++((decimal shardId.toNat).leftpad 5 48++ascii ".kvi")

def resolveArtifactFilePath (files : FileSystem) (artifactUri : Bytes) (shardId : UInt32) :
    StatusOr Bytes := do
  let path ← resolveLocalPath artifactUri
  match files.stat path with
  | .missing => .error (.notFound "artifact file not found")
  | .failed error => .error (.unavailable ("failed to stat artifact path: "++error))
  | .regular => return path
  | .other => .error (.invalidArgument "artifact path is neither a regular file nor a directory")
  | .directory =>
    let shardPath := joinPath path (shardFileName shardId)
    match files.stat shardPath with
    | .missing => .error (.notFound "artifact shard file not found")
    | .failed error => .error (.unavailable ("failed to stat artifact shard file: "++error))
    | .regular => return shardPath
    | .directory => .error (.invalidArgument "artifact shard path is not a regular file")
    | .other => .error (.invalidArgument "artifact shard path is not a regular file")

def mapFile (files : FileSystem) (path : Bytes) : StatusOr Bytes :=
  match files.contents path with
  | .missing => .error (.notFound "artifact file not found")
  | .openFailed error => .error (.unavailable ("failed to open artifact file: "++error))
  | .statFailed error => .error (.unavailable ("failed to stat artifact file: "++error))
  | .bytes [] => .error (.invalidArgument "artifact file is empty")
  | .mapFailed error => .error (.unavailable ("failed to mmap artifact file: "++error))
  | .bytes (first::rest) => .ok (first::rest)

/-- The first half of `LoadShard`, up to the bytes of the file. -/
def mapShardFile (files : FileSystem) (artifactUri : Bytes) (shardId : UInt32) :
    StatusOr Bytes := do
  let path ← resolveArtifactFilePath files artifactUri shardId
  mapFile files path

theorem decimalValue_leftpad (places n : ℕ) :
    decimalValue ((decimal n).leftpad places 48) = n := by
  have hzeros : ∀ count, decimalValue (List.replicate count 48++decimal n) =
      decimalValue (decimal n) := by
    intro count
    have hzero : ((48 : UInt8).toNat-48) = 0 := rfl
    rw [decimalValue,decimalValue,List.reverse_append,List.map_append,List.reverse_replicate,
      List.map_replicate,hzero,Nat.ofDigits_append_replicate_zero]
  rw [List.leftpad,hzeros,decimalValue_decimal]

theorem shardFileName_injective : Function.Injective shardFileName := by
  intro shardId shardId' h
  rw [shardFileName,shardFileName] at h
  have hpadded := List.append_cancel_right (List.append_cancel_left h)
  have hvalues := congrArg decimalValue hpadded
  rw [decimalValue_leftpad,decimalValue_leftpad] at hvalues
  exact UInt32.toNat_inj.mp hvalues

theorem joinPath_injective (directory : Bytes) : Function.Injective (joinPath directory) := by
  intro name name' h
  rw [joinPath,joinPath] at h
  split_ifs at h
  · exact List.append_cancel_left h
  · exact List.append_cancel_left (List.append_cancel_left h)

end Artifact
end KvIndex
