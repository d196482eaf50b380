import KvIndex.BuildRun

/-! The command line of the offline builder (`tools/offline/src/kv_index_build_artifact.cc`). The
arguments are read from left to right into options; a build is started only when they are all
understood and the required ones are there. -/
namespace KvIndex
namespace Offline
namespace CommandLine

open Base Prog

structure Options where
  schemaPath : Bytes := []
  inputPath : Bytes := []
  outputPath : Bytes := []
  artifactId : Bytes := []
  shardCount : Option UInt32 := none
  hashSeed : Option UInt64 := none
  hashVersion : Option UInt32 := none
  schemaVersion : Option UInt64 := none
  omitSourceProgress : Bool := false
  help : Bool := false
  deriving DecidableEq

def usage : String :=
  "usage: kv_index_build_artifact \\\n  --schema schema.yaml \\\n  --input parquet_dir \\\n  --output artifact_dir \\\n  --artifact_id build-id \\\n  [--schema_version N] [--shard_count 128] \\\n  [--hash_seed 0] [--hash_version 1] [--omit_source_progress]\n"

/-- One round of the loop of `ParseUInt32`; the value is small enough not to wrap before the
check. -/
def digitUInt32 (value : ℕ) (c : UInt8) : Option ℕ :=
  if !isDigit c then none
  else
    let value := value*10+(c.toNat-48)
    if value > uint32Max then none else some value

def parseUInt32 (text : Bytes) : Option UInt32 :=
  if text.isEmpty then none else (text.foldlM digitUInt32 0).map UInt32.ofNat

/-- One round of the loop of `ParseUInt64`, which checks before it multiplies. -/
def digitUInt64 (value : ℕ) (c : UInt8) : Option ℕ :=
  if !isDigit c then none
  else
    let digit := c.toNat-48
    if value > (uint64Max-digit)/10 then none else some (value*10+digit)

def parseUInt64 (text : Bytes) : Option UInt64 :=
  if text.isEmpty then none else (text.foldlM digitUInt64 0).map UInt64.ofNat

inductive Setting
  | schema
  | input
  | output
  | artifactId
  | shardCount
  | hashSeed
  | hashVersion
  | schemaVersion
  deriving DecidableEq

namespace Setting

def all : List Setting :=
  [schema,input,output,artifactId,shardCount,hashSeed,hashVersion,schemaVersion]

def name : Setting → String
  | schema => "--schema"
  | input => "--input"
  | output => "--output"
  | artifactId => "--artifact_id"
  | shardCount => "--shard_count"
  | hashSeed => "--hash_seed"
  | hashVersion => "--hash_version"
  | schemaVersion => "--schema_version"

/-- What is printed when the value is missing or cannot be taken. -/
def error (setting : Setting) : String :=
  match setting with
  | schema => "missing value for "++setting.name++"\n"
  | input => "missing value for "++setting.name++"\n"
  | output => "missing value for "++setting.name++"\n"
  | artifactId => "missing value for "++setting.name++"\n"
  | _ => "invalid value for "++setting.name++"\n"

/-- The options with the value; all numbers but the seed must not be zero. -/
def set (setting : Setting) (options : Options) (value : Bytes) : Option Options :=
  match setting with
  | schema => some { options with schemaPath := value }
  | input => some { options with inputPath := value }
  | output => some { options with outputPath := value }
  | artifactId => some { options with artifactId := value }
  | shardCount => ((parseUInt32 value).filter (· != 0)).map fun parsed =>
    { options with shardCount := some parsed }
  | hashSeed => (parseUInt64 value).map fun parsed => { options with hashSeed := some parsed }
  | hashVersion => ((parseUInt32 value).filter (· != 0)).map fun parsed =>
    { options with hashVersion := some parsed }
  | schemaVersion => ((parseUInt64 value).filter (· != 0)).map fun parsed =>
    { options with schemaVersion := some parsed }

end Setting

def settingOf (arg : Bytes) : Option Setting :=
  Setting.all.find? fun setting => ascii setting.name = arg

def asksHelp (arg : Bytes) : Bool := arg = ascii "--help" || arg = ascii "-h"

/-- `ParseArgs` behind the program's name; an error is the line that is printed. -/
def parseArgs (options : Options) : List Bytes → Except String Options
  | [] => .ok options
  | arg::args =>
    if asksHelp arg then .ok { options with help := true }
    else
      match settingOf arg with
      | some setting =>
        match args with
        | [] => .error setting.error
        | value::rest =>
          match setting.set options value with
          | none => .error setting.error
          | some options => parseArgs options rest
      | none =>
        if arg = ascii "--omit_source_progress" then
          parseArgs { options with omitSourceProgress := true } args
        else .error ("unknown argument: "++display arg++"\n")

def validateRequired (options : Options) : Except String Unit :=
  if options.schemaPath.isEmpty then .error "missing required --schema\n"
  else if options.inputPath.isEmpty then .error "missing required --input\n"
  else if options.outputPath.isEmpty then .error "missing required --output\n"
  else if options.artifactId.isEmpty then .error "missing required --artifact_id\n"
  else .ok ()

def buildOptions (options : Options) : BuildArtifactOptions where
  schemaPath := options.schemaPath
  inputPath := options.inputPath
  outputPath := options.outputPath
  artifactId := options.artifactId
  shardCount := options.shardCount
  hashSeed := options.hashSeed
  hashVersion := options.hashVersion
  schemaVersion := options.schemaVersion
  omitSourceProgress := options.omitSourceProgress

structure Exit where
  code : ℕ
  out : String := ""
  err : String := ""
  deriving DecidableEq

def wrote (options : Options) (result : BuildArtifactResult) : Exit where
  code := 0
  out := "wrote "++toString result.rowCount++" rows across "++toString result.shardCount++
    " shards to "++display options.outputPath++" with schema_version="++
    toString result.schemaVersion++", hash_seed="++toString result.hashSeed++", hash_version="++
    toString result.hashVersion++"\n"

def failedToBuild (status : Status) : Exit where
  code := 1
  err := "failed to build artifact: "++status.message++"\n"

def refused (error : String) : Exit where
  code := 2
  err := error++usage

/-- What is printed of a build; there is no exit where the depth was not enough. -/
def report (options : Options) : Except (Option Status) BuildArtifactResult → Option Exit
  | .ok result => some (wrote options result)
  | .error (some status) => some (failedToBuild status)
  | .error none => none

def mainProgram (args : List Bytes) (depth : ℕ) : Building (Option Exit) :=
  match parseArgs {} args with
  | .error error => pure (some (refused error))
  | .ok options =>
    if options.help then pure (some { code := 0,out := usage })
    else
      match validateRequired options with
      | .error error => pure (some (refused error))
      | .ok () => do
        let result ← (buildArtifactDirectory (buildOptions options) depth).run
        return report options result

section Numbers

theorem isDigit_le {c : UInt8} (h : isDigit c = true) : c.toNat-48 ≤ 9 := by
  simp only [isDigit,Bool.and_eq_true,decide_eq_true_eq,UInt8.le_iff_toNat_le] at h
  have hlast : c.toNat ≤ 57 := h.2
  omega

theorem decimalValue_snoc (text : Bytes) (c : UInt8) :
    decimalValue (text++[c]) = decimalValue text*10+(c.toNat-48) := by
  rw [decimalValue,decimalValue,List.reverse_append,List.map_append]
  simp only [List.reverse_singleton,List.map_singleton,List.singleton_append,Nat.ofDigits_cons]
  omega

/-- A loop that takes a digit while the value stays within the limit reads decimal numbers. -/
theorem foldlM_digits {limit : ℕ} {step : ℕ → UInt8 → Option ℕ}
    (hstep : ∀ value c, step value c =
      if isDigit c ∧ value*10+(c.toNat-48) ≤ limit then some (value*10+(c.toNat-48)) else none)
    (text : Bytes) : text.foldlM step 0 =
      if text.all isDigit ∧ decimalValue text ≤ limit then some (decimalValue text) else none := by
  induction text using List.reverseRecOn with
  | nil => rw [if_pos ⟨rfl,Nat.zero_le _⟩]; rfl
  | append_singleton text c ih =>
    rw [List.foldlM_append,ih,decimalValue_snoc]
    by_cases hbefore : text.all isDigit = true ∧ decimalValue text ≤ limit
    · rw [if_pos hbefore]
      show (List.foldlM step (decimalValue text) [c]) = _
      rw [List.foldlM_cons,hstep]
      by_cases hc : isDigit c = true ∧ decimalValue text*10+(c.toNat-48) ≤ limit
      · rw [if_pos hc,if_pos ⟨by simpa [hbefore.1] using hc.1,hc.2⟩]
        rfl
      · rw [if_neg hc,if_neg fun h => hc ⟨by simpa [hbefore.1] using h.1,h.2⟩]
        rfl
    · rw [if_neg hbefore,if_neg fun h => hbefore ⟨?_,by omega⟩]
      · rfl
      · have hall := h.1
        rw [List.all_append,Bool.and_eq_true] at hall
        exact hall.1

theorem foldlM_digits_eq_some {limit n : ℕ} {step : ℕ → UInt8 → Option ℕ}
    (hstep : ∀ value c, step value c =
      if isDigit c ∧ value*10+(c.toNat-48) ≤ limit then some (value*10+(c.toNat-48)) else none)
    {text : Bytes} : text.foldlM step 0 = some n ↔
      text.all isDigit = true ∧ decimalValue text = n ∧ n ≤ limit := by
  rw [foldlM_digits hstep,Option.ite_none_right_eq_some,Option.some_inj]
  constructor
  · rintro ⟨⟨hall,hle⟩,rfl⟩
    exact ⟨hall,rfl,hle⟩
  · rintro ⟨hall,rfl,hle⟩
    exact ⟨⟨hall,hle⟩,rfl⟩

/-- The text spells the number. -/
def Spells (text : Bytes) (n : ℕ) : Prop :=
  text ≠ [] ∧ text.all isDigit = true ∧ decimalValue text = n

theorem digitUInt32_eq (value : ℕ) (c : UInt8) : digitUInt32 value c =
    if isDigit c ∧ value*10+(c.toNat-48) ≤ uint32Max then some (value*10+(c.toNat-48)) else none := by
  rw [digitUInt32]
  by_cases hdigit : isDigit c = true
  · by_cases hle : value*10+(c.toNat-48) ≤ uint32Max
    · simp [hdigit,hle]
    · simp [hdigit,hle,Nat.lt_of_not_le hle]
  · simp [hdigit]

theorem digitUInt64_eq (value : ℕ) (c : UInt8) : digitUInt64 value c =
    if isDigit c ∧ value*10+(c.toNat-48) ≤ uint64Max then some (value*10+(c.toNat-48)) else none := by
  rw [digitUInt64]
  by_cases hdigit : isDigit c = true
  · have hnine := isDigit_le hdigit
    have hcheck : value > (uint64Max-(c.toNat-48))/10 ↔ ¬value*10+(c.toNat-48) ≤ uint64Max := by
      rw [uint64Max]
      omega
    by_cases hle : value*10+(c.toNat-48) ≤ uint64Max
    · simp [hdigit,hcheck,hle]
    · simp [hdigit,hcheck,hle]
  · simp [hdigit]

theorem parseUInt32_eq_some {text : Bytes} {n : UInt32} :
    parseUInt32 text = some n ↔ Spells text n.toNat := by
  rw [parseUInt32,Spells]
  cases text with
  | nil => simp
  | cons c text =>
    rw [if_neg (by simp),Option.map_eq_some_iff]
    have hlimit : n.toNat ≤ uint32Max := Nat.le_pred_of_lt n.toNat_lt
    constructor
    · rintro ⟨value,hvalue,rfl⟩
      obtain ⟨hall,hdecimal,hle⟩ := (foldlM_digits_eq_some digitUInt32_eq).mp hvalue
      exact ⟨List.cons_ne_nil _ _,hall,by rw [hdecimal,Artifact.uint32_toNat hle]⟩
    · rintro ⟨-,hall,hdecimal⟩
      exact ⟨n.toNat,(foldlM_digits_eq_some digitUInt32_eq).mpr ⟨hall,hdecimal,hlimit⟩,
        UInt32.ofNat_toNat⟩

theorem parseUInt64_eq_some {text : Bytes} {n : UInt64} :
    parseUInt64 text = some n ↔ Spells text n.toNat := by
  rw [parseUInt64,Spells]
  cases text with
  | nil => simp
  | cons c text =>
    rw [if_neg (by simp),Option.map_eq_some_iff]
    have hlimit : n.toNat ≤ uint64Max := Nat.le_pred_of_lt n.toNat_lt
    constructor
    · rintro ⟨value,hvalue,rfl⟩
      obtain ⟨hall,hdecimal,hle⟩ := (foldlM_digits_eq_some digitUInt64_eq).mp hvalue
      exact ⟨List.cons_ne_nil _ _,hall,by rw [hdecimal,Artifact.uint64_toNat hle]⟩
    · rintro ⟨-,hall,hdecimal⟩
      exact ⟨n.toNat,(foldlM_digits_eq_some digitUInt64_eq).mpr ⟨hall,hdecimal,hlimit⟩,
        UInt64.ofNat_toNat⟩

end Numbers

/-- What a setting with a value says. -/
def Setting.Means (setting : Setting) (value : Bytes) (options options' : Options) : Prop :=
  match setting with
  | schema => options' = { options with schemaPath := value }
  | input => options' = { options with inputPath := value }
  | output => options' = { options with outputPath := value }
  | artifactId => options' = { options with artifactId := value }
  | shardCount => ∃ n : UInt32, Spells value n.toNat ∧ n ≠ 0 ∧
    options' = { options with shardCount := some n }
  | hashSeed => ∃ n : UInt64, Spells value n.toNat ∧ options' = { options with hashSeed := some n }
  | hashVersion => ∃ n : UInt32, Spells value n.toNat ∧ n ≠ 0 ∧
    options' = { options with hashVersion := some n }
  | schemaVersion => ∃ n : UInt64, Spells value n.toNat ∧ n ≠ 0 ∧
    options' = { options with schemaVersion := some n }

/-- Arguments that make options of the options so far. Behind a wish for help everything may
stand. -/
inductive Reads : Options → List Bytes → Options → Prop
  | nil (options : Options) : Reads options [] options
  | setting {options next last : Options} {value : Bytes} {args : List Bytes} (setting : Setting)
    (h : setting.Means value options next) (hrest : Reads next args last) :
    Reads options (ascii setting.name::value::args) last
  | omitSourceProgress {options last : Options} {args : List Bytes}
    (hrest : Reads { options with omitSourceProgress := true } args last) :
    Reads options (ascii "--omit_source_progress"::args) last
  | help {options : Options} {arg : Bytes} (args : List Bytes) (h : asksHelp arg = true) :
    Reads options (arg::args) { options with help := true }

section Grammar

variable {options options' : Options} {args : List Bytes}

theorem filter_map_eq_some {α : Type} {x : Option α} {p : α → Bool} {f : α → Options} :
    (x.filter p).map f = some options' ↔ ∃ a, x = some a ∧ p a = true ∧ options' = f a := by
  rw [Option.map_eq_some_iff]
  constructor
  · rintro ⟨a,ha,rfl⟩
    obtain ⟨hx,hp⟩ := Option.filter_eq_some_iff.mp ha
    exact ⟨a,hx,hp,rfl⟩
  · rintro ⟨a,hx,hp,rfl⟩
    exact ⟨a,Option.filter_eq_some_iff.mpr ⟨hx,hp⟩,rfl⟩

theorem set_eq_some (setting : Setting) (value : Bytes) :
    setting.set options value = some options' ↔ setting.Means value options options' := by
  cases setting with
  | shardCount =>
    simp only [Setting.set,Setting.Means,filter_map_eq_some,parseUInt32_eq_some,bne_iff_ne]
  | hashSeed =>
    simp only [Setting.set,Setting.Means,Option.map_eq_some_iff,parseUInt64_eq_some,
      eq_comm (a := options')]
  | hashVersion =>
    simp only [Setting.set,Setting.Means,filter_map_eq_some,parseUInt32_eq_some,bne_iff_ne]
  | schemaVersion =>
    simp only [Setting.set,Setting.Means,filter_map_eq_some,parseUInt64_eq_some,bne_iff_ne]
  | _ => exact Option.some_inj.trans eq_comm

theorem settingOf_name (setting : Setting) : settingOf (ascii setting.name) = some setting := by
  cases setting <;> decide

theorem asksHelp_name (setting : Setting) : asksHelp (ascii setting.name) = false := by
  cases setting <;> decide

theorem name_of_settingOf {arg : Bytes} {setting : Setting} (h : settingOf arg = some setting) :
    arg = ascii setting.name := by
  have hname := List.find?_some h
  exact (of_decide_eq_true hname).symm

theorem parseArgs_eq_ok : parseArgs options args = .ok options' ↔ Reads options args options' := by
  constructor
  · intro h
    fun_induction parseArgs options args with
    | case1 options =>
      cases h
      exact Reads.nil _
    | case2 options arg args hhelp =>
      cases h
      exact Reads.help _ hhelp
    | case3 => cases h
    | case4 => cases h
    | case5 options arg hhelp setting hsetting value rest next hnext ih =>
      rw [name_of_settingOf hsetting]
      exact Reads.setting setting ((set_eq_some setting value).mp hnext) (ih h)
    | case6 options args hhelp hnone ih => exact Reads.omitSourceProgress (ih h)
    | case7 => cases h
  · intro h
    induction h with
    | nil options => rfl
    | setting setting h hrest ih =>
      rw [parseArgs,asksHelp_name,settingOf_name]
      simp only [Bool.false_eq_true,if_false,(set_eq_some setting _).mpr h]
      exact ih
    | omitSourceProgress hrest ih => exact ih
    | help args h =>
      rw [parseArgs,if_pos h]

theorem validateRequired_eq_ok :
    validateRequired options = .ok () ↔ checkOptions (buildOptions options) = .ok () := by
  rw [validateRequired]
  simp only [checkOptions,buildOptions,bind_eq_ok,failIf_eq_ok,exists_const]
  cases options.schemaPath.isEmpty with
  | true => simp
  | false =>
    cases options.inputPath.isEmpty with
    | true => simp
    | false =>
      cases options.outputPath.isEmpty with
      | true => simp
      | false => cases options.artifactId.isEmpty <;> simp

example : parseArgs {} [ascii "--hash_seed",ascii "2",ascii "-h",ascii "--none"] =
    .ok { hashSeed := some 2,help := true } := by rfl

theorem reads_iff (hparse : parseArgs options args = .ok options') (read : Options) :
    Reads options args read ↔ read = options' := by
  rw [← parseArgs_eq_ok,hparse,Except.ok.injEq,eq_comm]

end Grammar

/-- What the program does is settled by its arguments. It builds where they read as options that
pass the build's own checks, and refuses everything else that does not ask for help before it
performs any operation. -/
theorem main_acts (args : List Bytes) (depth : ℕ) :
    (∃ error, mainProgram args depth = pure (some (refused error)) ∧
        ∀ options, Reads {} args options → options.help = false ∧
          checkOptions (buildOptions options) ≠ .ok ()) ∨
      ∃ options, (∀ read, Reads {} args read ↔ read = options) ∧
        (options.help = true ∧
            mainProgram args depth = pure (some { code := 0,out := usage }) ∨
          options.help = false ∧ checkOptions (buildOptions options) = .ok () ∧
            mainProgram args depth =
              (buildArtifactDirectory (buildOptions options) depth).run >>=
                fun result => pure (report options result)) := by
  rw [mainProgram]
  cases hparse : parseArgs {} args with
  | error error =>
    refine Or.inl ⟨error,rfl,fun options hreads => ?_⟩
    rw [parseArgs_eq_ok.mpr hreads] at hparse
    cases hparse
  | ok options =>
    have hreads := reads_iff hparse
    dsimp only
    by_cases hhelp : options.help = true
    · rw [if_pos hhelp]
      exact Or.inr ⟨options,hreads,Or.inl ⟨hhelp,rfl⟩⟩
    · rw [if_neg hhelp]
      have hnohelp := eq_false_of_ne_true hhelp
      cases hrequired : validateRequired options with
      | error error =>
        refine Or.inl ⟨error,rfl,fun read hread => ?_⟩
        rw [(hreads read).mp hread]
        refine ⟨hnohelp,fun hcheck => ?_⟩
        rw [validateRequired_eq_ok.mpr hcheck] at hrequired
        cases hrequired
      | ok _ =>
        exact Or.inr ⟨options,hreads,Or.inr ⟨hnohelp,validateRequired_eq_ok.mp hrequired,rfl⟩⟩

end CommandLine
end Offline
end KvIndex
