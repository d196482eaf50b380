import KvIndex.SchemaText

/-! What the parser reads from the text that the schema writer prints. Every line reads back on
its own; a name is printed raw and comes back with its comment, its blanks and its quotes
taken off. -/
namespace KvIndex
namespace Offline

open Base

theorem getLinesFrom_line {line : Bytes} (h : newline ∉ line) (before rest : Bytes) :
    getLinesFrom before (line++newline::rest) = (before++line)::getLines rest := by
  induction line generalizing before with
  | nil => simp [getLinesFrom,getLines]
  | cons c line ih =>
    have hc : c ≠ newline := fun hc => h (hc ▸ List.mem_cons_self)
    have hline : newline ∉ line := fun hmem => h (List.mem_cons_of_mem c hmem)
    rw [List.cons_append,getLinesFrom,if_neg hc,ih hline,List.append_assoc,List.singleton_append]

theorem getLines_join {lines : List Bytes} (h : ∀ line ∈ lines, newline ∉ line) :
    getLines (lines.flatMap fun line => line++[newline]) = lines := by
  induction lines with
  | nil => rfl
  | cons line lines ih =>
    have hline := getLinesFrom_line (h line List.mem_cons_self) []
      (lines.flatMap fun line => line++[newline])
    rw [List.flatMap_cons,List.append_assoc,List.singleton_append,getLines,hline,List.nil_append,
      ih fun other hother => h other (List.mem_cons_of_mem line hother)]

theorem newline_not_mem_getLinesFrom {text before : Bytes} (hbefore : newline ∉ before) :
    ∀ line ∈ getLinesFrom before text, newline ∉ line := by
  induction text generalizing before with
  | nil =>
    intro line hline
    rw [getLinesFrom] at hline
    split_ifs at hline
    · exact absurd hline List.not_mem_nil
    · rw [List.mem_singleton.mp hline]
      exact hbefore
  | cons c text ih =>
    intro line hline
    rw [getLinesFrom] at hline
    split_ifs at hline with hc
    · rcases List.mem_cons.mp hline with rfl | hline
      · exact hbefore
      · exact ih List.not_mem_nil line hline
    · refine ih ?_ line hline
      rw [List.mem_append,List.mem_singleton]
      rintro (hmem | hmem)
      · exact hbefore hmem
      · exact hc hmem.symm

theorem newline_not_mem_getLines (text : Bytes) : ∀ line ∈ getLines text, newline ∉ line :=
  newline_not_mem_getLinesFrom List.not_mem_nil

theorem stripFrom_isPrefix (inSingleQuote inDoubleQuote : Bool) (line : Bytes) :
    stripFrom inSingleQuote inDoubleQuote line <+: line := by
  induction line generalizing inSingleQuote inDoubleQuote with
  | nil => exact List.prefix_rfl
  | cons c line ih =>
    rw [stripFrom]
    split_ifs
    · exact List.prefix_cons_inj c |>.mpr (ih _ _)
    · exact List.prefix_cons_inj c |>.mpr (ih _ _)
    · exact List.nil_prefix
    · exact List.prefix_cons_inj c |>.mpr (ih _ _)

def isLetter (c : UInt8) : Bool := c != 39 && c != 34 && c != 35

theorem stripComment_append {before : Bytes} (h : before.all isLetter = true) (rest : Bytes) :
    stripComment (before++rest) = before++stripComment rest := by
  induction before with
  | nil => rfl
  | cons c before ih =>
    rw [List.all_cons,Bool.and_eq_true] at h
    obtain ⟨hc,hbefore⟩ := h
    simp only [isLetter,Bool.and_eq_true,bne_iff_ne,ne_eq] at hc
    have hstep : stripComment (c::(before++rest)) = c::stripComment (before++rest) := by
      rw [stripComment,stripFrom]
      simp [hc,stripComment]
    rw [List.cons_append,hstep,ih hbefore]
    rfl

theorem trim_sublist (text : Bytes) : (trim text).Sublist text :=
  (List.rdropWhile_prefix isBlank _).sublist.trans (List.dropWhile_sublist isBlank)

theorem unquote_sublist (value : Bytes) : (unquote value).Sublist value := by
  rw [unquote]
  split_ifs
  · exact (List.dropLast_sublist _).trans (List.tail_sublist value)
  · exact List.Sublist.refl value

theorem unquote_eq_self {value : Bytes} : unquote value = value ↔ isQuoted value = false := by
  constructor
  · intro h
    by_contra hquoted
    rw [Bool.not_eq_false] at hquoted
    rw [unquote,if_pos hquoted] at h
    have hlong : 2 ≤ value.length := by
      rw [isQuoted,Bool.and_eq_true,decide_eq_true_eq] at hquoted
      exact hquoted.1
    have hlength := congrArg List.length h
    rw [List.length_dropLast,List.length_tail] at hlength
    omega
  · intro h
    rw [unquote,h]
    rfl

def readBack (value : Bytes) : Bytes := unquote (trim (stripComment value))

/-- A value without a comment, without blanks at its ends and not between quotes. -/
def Plain (value : Bytes) : Prop :=
  stripComment value = value ∧ trim value = value ∧ isQuoted value = false

instance (value : Bytes) : Decidable (Plain value) := inferInstanceAs (Decidable (_ ∧ _))

/-- A value reads back iff it is plain: each of the three steps can only shorten it. -/
theorem readBack_eq_self {value : Bytes} : readBack value = value ↔ Plain value := by
  constructor
  · intro h
    have hstrip : (stripComment value).Sublist value := (stripFrom_isPrefix _ _ value).sublist
    have htrim := trim_sublist (stripComment value)
    have hunquote : value.Sublist (trim (stripComment value)) := by
      have hsub := unquote_sublist (trim (stripComment value))
      rw [← readBack,h] at hsub
      exact hsub
    have hstripped : stripComment value = value := hstrip.antisymm (hunquote.trans htrim)
    have htrimmed : trim value = value := by
      rw [hstripped] at hunquote
      exact (trim_sublist value).antisymm hunquote
    refine ⟨hstripped,htrimmed,unquote_eq_self.mp ?_⟩
    rw [readBack,hstripped,htrimmed] at h
    exact h
  · rintro ⟨hstrip,htrim,hquoted⟩
    rw [readBack,hstrip,htrim,unquote_eq_self.mpr hquoted]

theorem dropWhile_rdropWhile {α : Type} (p : α → Bool) (l : List α) :
    (l.rdropWhile p).dropWhile p = (l.dropWhile p).rdropWhile p := by
  induction l using List.reverseRecOn with
  | nil => rfl
  | append_singleton l a ih =>
    rw [List.rdropWhile_concat,List.dropWhile_append]
    by_cases ha : p a = true
    · rw [if_pos ha,ih]
      by_cases hl : l.dropWhile p = []
      · simp [hl,ha]
      · rw [if_neg (by simpa using hl),List.rdropWhile_concat_pos _ _ _ ha]
    · rw [if_neg ha,List.dropWhile_append]
      by_cases hl : l.dropWhile p = []
      · simp [hl,ha,List.rdropWhile_singleton]
      · rw [if_neg (by simpa using hl),List.rdropWhile_concat_neg _ _ _ ha]

theorem rdropWhile_append_last {α : Type} {p : α → Bool} {c : α} (hc : p c = false)
    (before rest : List α) :
    (before++c::rest).rdropWhile p = before++c::rest.rdropWhile p := by
  induction rest using List.reverseRecOn with
  | nil =>
    rw [List.rdropWhile_concat_neg]
    · rfl
    · simp [hc]
  | append_singleton rest a ih =>
    rw [← List.cons_append,← List.append_assoc,List.rdropWhile_concat,List.rdropWhile_concat]
    split_ifs
    · exact ih
    · simp

theorem trim_rdropWhile (text : Bytes) : trim (text.rdropWhile isBlank) = trim text := by
  rw [trim,dropWhile_rdropWhile,List.rdropWhile_idempotent,trim]

theorem trim_cons_blank {c : UInt8} (hc : isBlank c = true) (text : Bytes) :
    trim (c::text) = trim text := by
  rw [trim,List.dropWhile_cons_of_pos hc,trim]

theorem trim_indent (n : ℕ) (text : Bytes) : trim (List.replicate n 32++text) = trim text := by
  induction n with
  | zero => rfl
  | succ n ih => rw [List.replicate_succ,List.cons_append,trim_cons_blank rfl,ih]

def isKeyByte (c : UInt8) : Bool := isLetter c && !isBlank c && c != 58

/-- The text of a key: a byte that starts no comment, blank or value, and more of them. -/
structure Keyed (key : Bytes) : Prop where
  nonempty : key ≠ []
  bytes : key.all isKeyByte = true

namespace Keyed

variable {key : Bytes} (hk : Keyed key)

include hk

theorem letters : key.all isLetter = true := by
  rw [List.all_eq_true]
  intro c hc
  have hbyte := List.all_eq_true.mp hk.bytes c hc
  simp only [isKeyByte,Bool.and_eq_true] at hbyte
  exact hbyte.1.1

theorem not_blank {c : UInt8} (hc : c ∈ key) : isBlank c = false := by
  have hbyte := List.all_eq_true.mp hk.bytes c hc
  simp only [isKeyByte,Bool.and_eq_true,Bool.not_eq_true'] at hbyte
  exact hbyte.1.2

theorem dropWhile_blank (rest : Bytes) : (key++rest).dropWhile isBlank = key++rest := by
  obtain ⟨c,key,rfl⟩ := List.exists_cons_of_ne_nil hk.nonempty
  rw [List.cons_append,List.dropWhile_cons_of_neg]
  rw [hk.not_blank List.mem_cons_self]
  exact Bool.false_ne_true

theorem trim_self : trim key = key := by
  have hdrop := hk.dropWhile_blank []
  rw [List.append_nil] at hdrop
  rw [trim,hdrop,List.rdropWhile_eq_self_iff]
  intro hne
  rw [hk.not_blank (List.getLast_mem hne)]
  exact Bool.false_ne_true

theorem trim_line (value : Bytes) :
    trim (key++58::value) = key++58::value.rdropWhile isBlank := by
  rw [trim,hk.dropWhile_blank,rdropWhile_append_last rfl]

theorem parseKeyValue_line (value : Bytes) :
    parseKeyValue (key++58::value.rdropWhile isBlank) = .ok (key,unquote (trim value)) := by
  have hcolon : ∀ c ∈ key, (c != 58) = true := by
    intro c hc
    have hbyte := List.all_eq_true.mp hk.bytes c hc
    simp only [isKeyByte,Bool.and_eq_true] at hbyte
    exact hbyte.2
  have hempty : key.isEmpty = false := by
    rw [List.isEmpty_eq_false_iff]
    exact hk.nonempty
  have hdrop : (key++58::value.rdropWhile isBlank).dropWhile (· != 58) =
      58::value.rdropWhile isBlank := by
    rw [List.dropWhile_append_of_pos hcolon]
    rfl
  have htake : (key++58::value.rdropWhile isBlank).takeWhile (· != 58) = key := by
    rw [List.takeWhile_append_of_pos hcolon]
    simp
  rw [parseKeyValue,hdrop,htake]
  simp only [hk.trim_self,hempty,failIf_false,ok_bind,trim_rdropWhile,pure_eq_ok]

end Keyed

def lineOf (indent : ℕ) (key value : Bytes) : Bytes := List.replicate indent 32++(key++58::32::value)

/-- The line without its indentation, its comment and the blanks behind it. -/
def trimmedLine (key value : Bytes) : Bytes := key++58::(32::stripComment value).rdropWhile isBlank

section Line

variable {key : Bytes} (hk : Keyed key) {state : ParseState}

theorem replicate_letters (indent : ℕ) : (List.replicate indent (32 : UInt8)).all isLetter = true := by
  rw [List.all_eq_true]
  intro c hc
  rw [List.eq_of_mem_replicate hc]
  rfl

include hk

theorem stripComment_lineOf (indent : ℕ) (value : Bytes) :
    stripComment (lineOf indent key value) = lineOf indent key (stripComment value) := by
  have hcolon : ∀ value : Bytes, key++58::32::value = (key++[58,32])++value := by simp
  have hletters : (key++[58,32]).all isLetter = true := by
    rw [List.all_append,hk.letters]
    rfl
  rw [lineOf,lineOf,stripComment_append (replicate_letters indent),hcolon value,
    stripComment_append hletters,hcolon (stripComment value)]

theorem trim_lineOf (indent : ℕ) (value : Bytes) :
    trim (stripComment (lineOf indent key value)) = trimmedLine key value := by
  rw [stripComment_lineOf hk,lineOf,trim_indent,hk.trim_line,trimmedLine]

theorem parseKeyValue_trimmedLine (value : Bytes) :
    parseKeyValue (trimmedLine key value) = .ok (key,readBack value) := by
  rw [trimmedLine,hk.parseKeyValue_line,trim_cons_blank rfl,readBack]

omit hk in
theorem trimmedLine_nonempty (key value : Bytes) : (trimmedLine key value).isEmpty = false := by
  simp [trimmedLine]

theorem indent_lineOf (indent : ℕ) (value : Bytes) :
    ((stripComment (lineOf indent key value)).takeWhile (· == 32)).length = indent := by
  obtain ⟨c,rest,hkey⟩ := List.exists_cons_of_ne_nil hk.nonempty
  have hc : c ≠ 32 := by
    rintro rfl
    have hblank := hk.not_blank (c := 32) (by rw [hkey]; exact List.mem_cons_self)
    cases hblank
  rw [stripComment_lineOf hk,lineOf,List.takeWhile_append_of_pos (by simp),hkey,List.cons_append]
  simp [hc]

theorem trimmedLine_ne (title : Bytes) (htitle : title.all isKeyByte = true) (hne : key ≠ title)
    (value : Bytes) : trimmedLine key value ≠ title++[58] := by
  intro h
  have hcolon : ∀ {text : Bytes}, text.all isKeyByte = true → ∀ c ∈ text, (c != 58) = true := by
    intro text htext c hc
    have hbyte := List.all_eq_true.mp htext c hc
    simp only [isKeyByte,Bool.and_eq_true] at hbyte
    exact hbyte.2
  have htake := congrArg (List.takeWhile (· != 58)) h
  rw [trimmedLine,List.takeWhile_append_of_pos (hcolon hk.bytes),
    List.takeWhile_append_of_pos (hcolon htitle)] at htake
  exact hne (by simpa using htake)

theorem trimmedLine_take (value : Bytes) : (trimmedLine key value).take 2 ≠ ascii "- " := by
  intro h
  have hitem : ascii "- " = [45,32] := by decide
  rw [hitem,trimmedLine] at h
  cases hkey : key with
  | nil => exact hk.nonempty hkey
  | cons c rest =>
    rw [hkey] at h
    cases hrest : rest with
    | nil =>
      rw [hrest] at h
      simp at h
    | cons d rest =>
      rw [hrest] at h
      have hblank := hk.not_blank (c := d) (by rw [hkey,hrest]; simp)
      simp only [List.cons_append,List.take_succ_cons,List.cons.injEq] at h
      rw [h.2.1] at hblank
      cases hblank

theorem parseLine_topLevel {value : Bytes} {config : ParsedSchemaConfig}
    (hpending : state.hasPendingField = false) (hprimary : key ≠ ascii "primary_key")
    (hfields : key ≠ ascii "fields")
    (happly : applyTopLevelKey state.config key (readBack value) = .ok config) :
    parseLine state (lineOf 0 key value) = .ok { state with
      config,inSection := .kTopLevel,lineNumber := state.lineNumber+1 } := by
  have hprimary' : trimmedLine key value ≠ ascii "primary_key:" :=
    trimmedLine_ne hk (ascii "primary_key") (by decide) hprimary value
  have hfields' : trimmedLine key value ≠ ascii "fields:" :=
    trimmedLine_ne hk (ascii "fields") (by decide) hfields value
  simp only [parseLine,trim_lineOf hk,indent_lineOf hk,trimmedLine_nonempty,Bool.false_eq_true,
    if_false,if_true,parseTopLevelLine,flushParsedField,hpending,Bool.not_false,ok_bind,hprimary',
    hfields',parseKeyValue_trimmedLine hk,onLine,Except.mapError,happly,pure_eq_ok]

theorem parseLine_primaryKey {value : Bytes} {config : ParsedSchemaConfig} (indent : ℕ)
    (hsection : state.inSection = .kPrimaryKey)
    (happly : applyPrimaryKey state.config key (readBack value) = .ok config) :
    parseLine state (lineOf (indent+1) key value) = .ok { state with
      config,lineNumber := state.lineNumber+1 } := by
  simp only [parseLine,trim_lineOf hk,indent_lineOf hk,trimmedLine_nonempty,Bool.false_eq_true,
    if_false,Nat.add_eq_zero_iff,one_ne_zero,and_false,hsection,parsePrimaryKeyLine,
    parseKeyValue_trimmedLine hk,onLine,Except.mapError,ok_bind,happly,pure_eq_ok]

theorem parseLine_fieldKey {value : Bytes} {pending : ParsedField} (indent : ℕ)
    (hsection : state.inSection = .kFields) (hpending : state.hasPendingField = true)
    (happly : applyFieldKey state.pendingField key (readBack value) = .ok pending) :
    parseLine state (lineOf (indent+1) key value) = .ok { state with
      pendingField := pending,lineNumber := state.lineNumber+1 } := by
  simp only [parseLine,trim_lineOf hk,indent_lineOf hk,trimmedLine_nonempty,Bool.false_eq_true,
    if_false,Nat.add_eq_zero_iff,one_ne_zero,and_false,hsection,parseFieldLine,trimmedLine_take hk,
    hpending,Bool.not_true,failIf_false,ok_bind,parseFieldKey,parseKeyValue_trimmedLine hk,onLine,
    Except.mapError,happly,pure_eq_ok]

theorem parseLine_item {value : Bytes} {flushed : ParseState} {pending : ParsedField} (indent : ℕ)
    (hsection : state.inSection = .kFields)
    (hflush : flushParsedField { state with lineNumber := state.lineNumber+1 } = .ok flushed)
    (happly : applyFieldKey flushed.pendingField key (readBack value) = .ok pending) :
    parseLine state (List.replicate (indent+1) 32++45::32::(key++58::32::value)) = .ok { flushed with
      pendingField := pending,hasPendingField := true } := by
  have hitem : ascii "- " = [45,32] := by decide
  have hstrip : stripComment (List.replicate (indent+1) 32++45::32::(key++58::32::value)) =
      List.replicate (indent+1) 32++45::32::(key++58::32::stripComment value) := by
    have hline := stripComment_lineOf hk 0 value
    rw [lineOf,lineOf,List.replicate_zero,List.nil_append,List.nil_append] at hline
    rw [stripComment_append (replicate_letters (indent+1)),← hline]
    rfl
  have htrim : trim (stripComment
      (List.replicate (indent+1) 32++45::32::(key++58::32::value))) =
        45::32::trimmedLine key value := by
    rw [hstrip,trim_indent,trim,List.dropWhile_cons_of_neg (by decide)]
    exact rdropWhile_append_last rfl (45::32::key) _
  have hkeep : trim (trimmedLine key value) = trimmedLine key value := by
    rw [trimmedLine,hk.trim_line,List.rdropWhile_idempotent]
  have hindent : ((stripComment (List.replicate (indent+1) 32++
      45::32::(key++58::32::value))).takeWhile (· == 32)).length = indent+1 := by
    rw [hstrip,List.takeWhile_append_of_pos (by simp)]
    simp
  have hstep : parseLine state (List.replicate (indent+1) 32++45::32::(key++58::32::value)) =
      parseFieldLine { state with lineNumber := state.lineNumber+1 }
        (45::32::trimmedLine key value) := by
    simp only [parseLine,htrim,hindent,List.isEmpty_cons,Bool.false_eq_true,if_false,
      Nat.add_eq_zero_iff,one_ne_zero,and_false,hsection]
  rw [hstep,parseFieldLine,if_pos (by rw [hitem]; rfl),hflush]
  simp only [ok_bind,List.drop_succ_cons,List.drop_zero,hkeep,trimmedLine_nonempty,
    Bool.false_eq_true,if_false,parseFieldKey,parseKeyValue_trimmedLine hk,onLine,Except.mapError,
    happly,pure_eq_ok]

end Line

theorem parseLine_empty (state : ParseState) :
    parseLine state [] = .ok { state with lineNumber := state.lineNumber+1 } := rfl

theorem parseLine_title {state : ParseState} {title : Bytes} {inSection : Section}
    (hpending : state.hasPendingField = false)
    (htitle : title = ascii "primary_key:" ∧ inSection = .kPrimaryKey ∨
      title = ascii "fields:" ∧ inSection = .kFields) :
    parseLine state title = .ok { state with
      inSection,lineNumber := state.lineNumber+1 } := by
  have hfields : ascii "fields:" ≠ ascii "primary_key:" := by decide
  rcases htitle with ⟨rfl,rfl⟩ | ⟨rfl,rfl⟩
  · have htrim : trim (stripComment (ascii "primary_key:")) = ascii "primary_key:" := by decide
    have hindent : ((stripComment (ascii "primary_key:")).takeWhile (· == 32)).length = 0 := by decide
    have hempty : (ascii "primary_key:").isEmpty = false := by decide
    simp only [parseLine,htrim,hindent,hempty,Bool.false_eq_true,if_false,if_true,parseTopLevelLine,
      flushParsedField,hpending,Bool.not_false,ok_bind,pure_eq_ok]
  · have htrim : trim (stripComment (ascii "fields:")) = ascii "fields:" := by decide
    have hindent : ((stripComment (ascii "fields:")).takeWhile (· == 32)).length = 0 := by decide
    have hempty : (ascii "fields:").isEmpty = false := by decide
    simp only [parseLine,htrim,hindent,hempty,Bool.false_eq_true,if_false,if_true,parseTopLevelLine,
      flushParsedField,hpending,Bool.not_false,ok_bind,hfields,pure_eq_ok]

def isWordByte (c : UInt8) : Bool := isLetter c && !isBlank c

theorem plain_of_word {value : Bytes} (h : value.all isWordByte = true) : Plain value := by
  have hbyte : ∀ c ∈ value, isLetter c = true ∧ isBlank c = false := by
    intro c hc
    have hword := List.all_eq_true.mp h c hc
    simpa only [isWordByte,Bool.and_eq_true,Bool.not_eq_true'] using hword
  have hletters : value.all isLetter = true := by
    rw [List.all_eq_true]
    exact fun c hc => (hbyte c hc).1
  refine ⟨?_,?_,?_⟩
  · have hstrip := stripComment_append hletters []
    rw [List.append_nil] at hstrip
    rw [hstrip]
    exact List.append_nil value
  · have hdrop : value.dropWhile isBlank = value := by
      cases value with
      | nil => rfl
      | cons c value =>
        rw [List.dropWhile_cons_of_neg]
        rw [(hbyte c List.mem_cons_self).2]
        exact Bool.false_ne_true
    rw [trim,hdrop,List.rdropWhile_eq_self_iff]
    intro hne
    rw [(hbyte _ (List.getLast_mem hne)).2]
    exact Bool.false_ne_true
  · cases value with
    | nil => rfl
    | cons c value =>
      have hc := (hbyte c List.mem_cons_self).1
      simp only [isLetter,Bool.and_eq_true,bne_iff_ne,ne_eq] at hc
      simp [isQuoted,hc]

theorem decimal_digits (n : ℕ) : (decimal n).all isDigit = true := by
  rw [decimal]
  split_ifs
  · rfl
  · rw [List.all_eq_true]
    intro c hc
    obtain ⟨d,hd,rfl⟩ := List.mem_map.mp hc
    have hlt := Nat.digits_lt_base (by norm_num : 1 < 10) (List.mem_reverse.mp hd)
    interval_cases d
    all_goals decide

theorem decimalValue_decimal (n : ℕ) : decimalValue (decimal n) = n := by
  rw [decimalValue,decimal]
  split_ifs with hn
  · rw [hn]
    decide
  · have hdigits : (((Nat.digits 10 n).reverse.map fun d => UInt8.ofNat (48+d)).reverse.map
        fun c => c.toNat-48) = Nat.digits 10 n := by
      rw [← List.map_reverse,List.reverse_reverse,List.map_map]
      conv_rhs => rw [← List.map_id (Nat.digits 10 n)]
      refine List.map_congr_left fun d hd => ?_
      have hlt := Nat.digits_lt_base (by norm_num : 1 < 10) hd
      have hbyte : (UInt8.ofNat (48+d)).toNat = 48+d := UInt8.toNat_ofNat_of_lt' (by rw [UInt8.size]; omega)
      rw [Function.comp_apply,hbyte,Nat.add_sub_cancel_left,id]
    rw [hdigits,Nat.ofDigits_digits]

theorem plain_decimal (n : ℕ) : Plain (decimal n) := by
  refine plain_of_word (List.all_eq_true.mpr fun c hc => ?_)
  have hdigit := List.all_eq_true.mp (decimal_digits n) c hc
  simp only [isDigit,Bool.and_eq_true,decide_eq_true_eq,UInt8.le_iff_toNat_le] at hdigit
  obtain ⟨hlow,hhigh⟩ := hdigit
  have hbyte : c = UInt8.ofNat c.toNat := UInt8.ofNat_toNat.symm
  have hlow : 48 ≤ c.toNat := hlow
  have hhigh : c.toNat ≤ 57 := hhigh
  rw [hbyte]
  generalize c.toNat = n at hlow hhigh
  interval_cases n
  all_goals decide

theorem parseUnsigned_decimal {limit n : ℕ} (h : n ≤ limit) (name : Bytes) :
    parseUnsigned limit (readBack (decimal n)) name = .ok n := by
  have hempty : (decimal n).isEmpty = false := by
    rw [decimal]
    split_ifs with hn
    · rfl
    · simpa [Nat.digits_ne_nil_iff_ne_zero] using hn
  rw [readBack_eq_self.mpr (plain_decimal n),parseUnsigned,hempty,decimal_digits,
    decimalValue_decimal,decide_eq_false (Nat.not_lt.mpr h)]
  rfl

theorem readBack_ascii {text : Bytes} (h : text.all isWordByte = true) : readBack text = text :=
  readBack_eq_self.mpr (plain_of_word h)

theorem lineOf_append (indent : ℕ) (key value : Bytes) :
    lineOf indent key []++value = lineOf indent key value := by
  simp [lineOf]

/-- A field as the parser hands it out: its type and its encoding are named, and it has no
default. -/
structure ParsedSpec (field : FieldSpec) : Prop where
  type : parseType (fieldTypeName field.type) = .ok field.type
  encoding : parseFieldEncoding (fieldEncodingConfigName field.encoding) field.isList field.type =
    .ok field.encoding
  noDefault : field.defaultValue = .monostate
  active : field.deleted = false
  oneLine : newline ∉ field.name

/-- The field that the parser reads from the lines of a written one. -/
def readField (field : FieldSpec) : FieldSpec := { field with name := readBack field.name }

def pendingOf (field : FieldSpec) : ParsedField where
  field := { readField field with encoding := .kFixed }
  encodingName := fieldEncodingConfigName field.encoding
  hasFieldId := true
  hasName := true
  hasType := true
  hasIsList := true
  hasNullable := true
  hasEncoding := true

theorem flush_pendingOf {field : FieldSpec} (h : ParsedSpec field) (config : ParsedSchemaConfig)
    (inSection : Section) (n : ℕ) :
    flushParsedField ⟨config,inSection,pendingOf field,true,n⟩ =
      .ok ⟨{ config with fields := config.fields++[readField field] },inSection,{},false,n⟩ := by
  have hencoding : parseFieldEncoding (pendingOf field).encodingName (pendingOf field).field.isList
      (pendingOf field).field.type = .ok field.encoding := h.encoding
  simp only [flushParsedField,hencoding,ok_bind,pure_eq_ok]
  rfl

theorem word_fieldTypeName (type : FieldType) : (fieldTypeName type).all isWordByte = true := by
  cases type
  all_goals rfl

theorem word_boolName (value : Bool) : (boolName value).all isWordByte = true := by
  cases value
  all_goals rfl

theorem word_fieldEncodingConfigName (encoding : FieldEncoding) :
    (fieldEncodingConfigName encoding).all isWordByte = true := by
  cases encoding
  all_goals rfl

theorem parseBool_boolName (value : Bool) :
    parseBool (readBack (boolName value)) = .ok value := by
  rw [readBack_ascii (word_boolName value)]
  cases value
  all_goals decide

theorem parseLine_property {config : ParsedSchemaConfig} {pending pending' : ParsedField} {n : ℕ}
    (key : Bytes) (hk : Keyed key) (text : Bytes) (htext : text = lineOf 4 key []) (value : Bytes)
    (happly : applyFieldKey pending key (readBack value) = .ok pending') :
    parseLine ⟨config,.kFields,pending,true,n⟩ (text++value) =
      .ok ⟨config,.kFields,pending',true,n+1⟩ := by
  rw [htext,lineOf_append]
  exact parseLine_fieldKey hk 3 rfl rfl happly

section Properties

variable (pending : ParsedField) {value : Bytes}

theorem applyFieldKey_fieldId (fieldId : FieldId) :
    applyFieldKey pending (ascii "field_id") (readBack (decimal fieldId.toNat)) =
      .ok { pending with field := { pending.field with fieldId },hasFieldId := true } := by
  have hlimit : fieldId.toNat ≤ uint32Max := Nat.le_of_lt_succ fieldId.toNat_lt
  rw [applyFieldKey,if_pos rfl,parseUnsigned_decimal hlimit]
  simp only [ok_bind,pure_eq_ok,UInt32.ofNat_toNat]

theorem applyFieldKey_name :
    applyFieldKey pending (ascii "name") value =
      .ok { pending with field := { pending.field with name := value },hasName := true } := rfl

theorem applyFieldKey_type {type : FieldType} (h : parseType value = .ok type) :
    applyFieldKey pending (ascii "type") value =
      .ok { pending with field := { pending.field with type },hasType := true } := by
  rw [applyFieldKey,if_neg (by decide),if_neg (by decide),if_pos rfl,h]
  rfl

theorem applyFieldKey_isList {isList : Bool} (h : parseBool value = .ok isList) :
    applyFieldKey pending (ascii "is_list") value =
      .ok { pending with field := { pending.field with isList },hasIsList := true } := by
  rw [applyFieldKey,if_neg (by decide),if_neg (by decide),if_neg (by decide),if_pos rfl,h]
  rfl

theorem applyFieldKey_nullable {nullable : Bool} (h : parseBool value = .ok nullable) :
    applyFieldKey pending (ascii "nullable") value =
      .ok { pending with field := { pending.field with nullable },hasNullable := true } := by
  rw [applyFieldKey,if_neg (by decide),if_neg (by decide),if_neg (by decide),if_neg (by decide),
    if_pos rfl,h]
  rfl

theorem applyFieldKey_encoding :
    applyFieldKey pending (ascii "encoding") value =
      .ok { pending with encodingName := value,hasEncoding := true } := rfl

end Properties

theorem fieldLines_run {field : FieldSpec} (h : ParsedSpec field)
    {config config' : ParsedSchemaConfig} {pending : ParsedField} {hasPending : Bool} {n : ℕ}
    (hflush : flushParsedField ⟨config,.kFields,pending,hasPending,n+1⟩ =
      .ok ⟨config',.kFields,{},false,n+1⟩) :
    (fieldLines field).foldlM parseLine ⟨config,.kFields,pending,hasPending,n⟩ =
      .ok ⟨config',.kFields,pendingOf field,true,n+7⟩ := by
  have hid := @parseLine_item (ascii "field_id") ⟨by decide,by decide⟩
    ⟨config,.kFields,pending,hasPending,n⟩ _ _ _ 1 rfl hflush
    (applyFieldKey_fieldId {} field.fieldId)
  have hline : List.replicate 2 32++45::32::(ascii "field_id"++58::32::decimal field.fieldId.toNat) =
      ascii "  - field_id: "++decimal field.fieldId.toNat := by
    have hkey : ascii "  - field_id: " =
        List.replicate 2 32++45::32::(ascii "field_id"++[58,32]) := by decide
    rw [hkey]
    simp
  rw [hline] at hid
  have htype : parseType (readBack (fieldTypeName field.type)) = .ok field.type := by
    rw [readBack_ascii (word_fieldTypeName field.type)]
    exact h.type
  rw [fieldLines,List.foldlM_cons,hid,ok_bind,List.foldlM_cons,
    parseLine_property (ascii "name") ⟨by decide,by decide⟩ _ (by decide) _
      (applyFieldKey_name _),ok_bind,List.foldlM_cons,
    parseLine_property (ascii "type") ⟨by decide,by decide⟩ _ (by decide) _
      (applyFieldKey_type _ htype),ok_bind,List.foldlM_cons,
    parseLine_property (ascii "is_list") ⟨by decide,by decide⟩ _ (by decide) _
      (applyFieldKey_isList _ (parseBool_boolName field.isList)),ok_bind,List.foldlM_cons,
    parseLine_property (ascii "nullable") ⟨by decide,by decide⟩ _ (by decide) _
      (applyFieldKey_nullable _ (parseBool_boolName field.nullable)),ok_bind,List.foldlM_cons,
    parseLine_property (ascii "encoding") ⟨by decide,by decide⟩ _ (by decide) _
      (applyFieldKey_encoding _),ok_bind,List.foldlM_cons,parseLine_empty,ok_bind,
    readBack_ascii (word_fieldEncodingConfigName field.encoding),List.foldlM_nil,pure_eq_ok]
  have hpending : pendingOf field =
      { field := { fieldId := field.fieldId,name := readBack field.name,type := field.type,
                   isList := field.isList,nullable := field.nullable },
        encodingName := fieldEncodingConfigName field.encoding,hasFieldId := true,hasName := true,
        hasType := true,hasIsList := true,hasNullable := true,hasEncoding := true } := by
    rw [pendingOf,readField,h.noDefault,h.active]
  rw [hpending]

/-- The state stands in the fields section, and its pending field, if any, completes `config`. -/
def FlushesTo (state : ParseState) (config : ParsedSchemaConfig) : Prop :=
  state.inSection = .kFields ∧
    ∀ n, flushParsedField { state with lineNumber := n } = .ok ⟨config,.kFields,{},false,n⟩

theorem fields_run {fields : List FieldSpec} (h : ∀ field ∈ fields, ParsedSpec field)
    {state : ParseState} {config : ParsedSchemaConfig} (hstate : FlushesTo state config) :
    ∃ state', (fields.flatMap fieldLines).foldlM parseLine state = .ok state' ∧
      FlushesTo state' { config with fields := config.fields++fields.map readField } := by
  induction fields generalizing state config with
  | nil => exact ⟨state,rfl,by simpa using hstate⟩
  | cons field fields ih =>
    obtain ⟨hsection,hflush⟩ := hstate
    have hfield := h field List.mem_cons_self
    obtain ⟨before,inSection,pending,hasPending,n⟩ := state
    obtain rfl : inSection = .kFields := hsection
    have hlines := fieldLines_run hfield (hflush (n+1))
    have hnext : FlushesTo ⟨config,.kFields,pendingOf field,true,n+7⟩
        { config with fields := config.fields++[readField field] } :=
      ⟨rfl,fun m => flush_pendingOf hfield config .kFields m⟩
    obtain ⟨state',hrun,hstate'⟩ :=
      ih (fun other hother => h other (List.mem_cons_of_mem field hother)) hnext
    refine ⟨state',?_,?_⟩
    · rw [List.flatMap_cons,List.foldlM_append,hlines,ok_bind,hrun]
    · rw [List.map_cons,List.append_cons]
      exact hstate'

section TopLevel

variable (config : ParsedSchemaConfig)

theorem applyTopLevelKey_schemaVersion (schemaVersion : UInt64) :
    applyTopLevelKey config (ascii "schema_version") (readBack (decimal schemaVersion.toNat)) =
      .ok { config with schemaVersion,hasSchemaVersion := true } := by
  have hlimit : schemaVersion.toNat ≤ uint64Max := Nat.le_of_lt_succ schemaVersion.toNat_lt
  rw [applyTopLevelKey,if_pos rfl,parseUnsigned_decimal hlimit]
  simp only [ok_bind,pure_eq_ok,UInt64.ofNat_toNat]

theorem applyTopLevelKey_shardCount (shardCount : UInt32) :
    applyTopLevelKey config (ascii "shard_count") (readBack (decimal shardCount.toNat)) =
      .ok { config with shardCount := some shardCount } := by
  have hlimit : shardCount.toNat ≤ uint32Max := Nat.le_of_lt_succ shardCount.toNat_lt
  rw [applyTopLevelKey,if_neg (by decide),if_pos rfl,parseUnsigned_decimal hlimit]
  simp only [ok_bind,pure_eq_ok,UInt32.ofNat_toNat]

theorem applyTopLevelKey_hashSeed (hashSeed : UInt64) :
    applyTopLevelKey config (ascii "hash_seed") (readBack (decimal hashSeed.toNat)) =
      .ok { config with hashSeed := some hashSeed } := by
  have hlimit : hashSeed.toNat ≤ uint64Max := Nat.le_of_lt_succ hashSeed.toNat_lt
  rw [applyTopLevelKey,if_neg (by decide),if_neg (by decide),if_pos rfl,
    parseUnsigned_decimal hlimit]
  simp only [ok_bind,pure_eq_ok,UInt64.ofNat_toNat]

theorem applyTopLevelKey_hashVersion (hashVersion : UInt32) :
    applyTopLevelKey config (ascii "hash_version") (readBack (decimal hashVersion.toNat)) =
      .ok { config with hashVersion := some hashVersion } := by
  have hlimit : hashVersion.toNat ≤ uint32Max := Nat.le_of_lt_succ hashVersion.toNat_lt
  rw [applyTopLevelKey,if_neg (by decide),if_neg (by decide),if_neg (by decide),if_pos rfl,
    parseUnsigned_decimal hlimit]
  simp only [ok_bind,pure_eq_ok,UInt32.ofNat_toNat]

end TopLevel

theorem parseLine_header {config config' : ParsedSchemaConfig} {n : ℕ} (key : Bytes)
    (hk : Keyed key) (hprimary : key ≠ ascii "primary_key") (hfields : key ≠ ascii "fields")
    (text : Bytes) (htext : text = lineOf 0 key []) (value : Bytes)
    (happly : applyTopLevelKey config key (readBack value) = .ok config') :
    parseLine ⟨config,.kTopLevel,{},false,n⟩ (text++value) =
      .ok ⟨config',.kTopLevel,{},false,n+1⟩ := by
  rw [htext,lineOf_append]
  exact parseLine_topLevel hk rfl hprimary hfields happly

theorem parseLine_primary {config config' : ParsedSchemaConfig} {n : ℕ} (key : Bytes)
    (hk : Keyed key) (text : Bytes) (htext : text = lineOf 2 key []) (value : Bytes)
    (happly : applyPrimaryKey config key (readBack value) = .ok config') :
    parseLine ⟨config,.kPrimaryKey,{},false,n⟩ (text++value) =
      .ok ⟨config',.kPrimaryKey,{},false,n+1⟩ := by
  rw [htext,lineOf_append]
  exact parseLine_primaryKey hk 1 rfl happly

theorem applyPrimaryKey_type (config : ParsedSchemaConfig) :
    applyPrimaryKey config (ascii "type") (readBack (ascii "uint64")) =
      .ok { config with primaryKeyType := .kUInt64,hasPrimaryKeyType := true } := by
  rw [readBack_ascii (by decide)]
  rfl

def readHeader (config : ParsedSchemaConfig) (schemaVersion : UInt64) (shardCount : UInt32)
    (hashSeed : UInt64) (hashVersion : UInt32) : ParsedSchemaConfig where
  schemaVersion := schemaVersion
  hasSchemaVersion := true
  shardCount := some shardCount
  hashSeed := some hashSeed
  hashVersion := some hashVersion
  primaryKeyName := readBack config.primaryKeyName
  hasPrimaryKeyName := true
  hasPrimaryKeyType := true

section Written

variable (config : ParsedSchemaConfig) (schemaVersion : UInt64) (shardCount : UInt32)
  (hashSeed : UInt64) (hashVersion : UInt32)

theorem headerLines_run :
    (headerLines config schemaVersion shardCount hashSeed hashVersion).foldlM parseLine {} =
      .ok ⟨readHeader config schemaVersion shardCount hashSeed hashVersion,.kFields,{},false,10⟩ := by
  have htypeLine : ascii "  type: uint64" = ascii "  type: "++ascii "uint64" := by decide
  rw [headerLines,htypeLine,List.foldlM_cons,
    parseLine_header (ascii "schema_version") ⟨by decide,by decide⟩ (by decide) (by decide) _
      (by decide) _ (applyTopLevelKey_schemaVersion _ schemaVersion),ok_bind,List.foldlM_cons,
    parseLine_header (ascii "shard_count") ⟨by decide,by decide⟩ (by decide) (by decide) _
      (by decide) _ (applyTopLevelKey_shardCount _ shardCount),ok_bind,List.foldlM_cons,
    parseLine_header (ascii "hash_seed") ⟨by decide,by decide⟩ (by decide) (by decide) _
      (by decide) _ (applyTopLevelKey_hashSeed _ hashSeed),ok_bind,List.foldlM_cons,
    parseLine_header (ascii "hash_version") ⟨by decide,by decide⟩ (by decide) (by decide) _
      (by decide) _ (applyTopLevelKey_hashVersion _ hashVersion),ok_bind,List.foldlM_cons,
    parseLine_empty,ok_bind,List.foldlM_cons,parseLine_title rfl (.inl ⟨rfl,rfl⟩),ok_bind,
    List.foldlM_cons,parseLine_primary (ascii "name") ⟨by decide,by decide⟩ _ (by decide) _ rfl,
    ok_bind,List.foldlM_cons,
    parseLine_primary (ascii "type") ⟨by decide,by decide⟩ _ (by decide) _
      (applyPrimaryKey_type _),ok_bind,List.foldlM_cons,parseLine_empty,ok_bind,List.foldlM_cons,
    parseLine_title rfl (.inr ⟨rfl,rfl⟩),ok_bind,List.foldlM_nil,pure_eq_ok]
  rfl

variable {config} in
theorem getLines_writeSchemaFile (hname : newline ∉ config.primaryKeyName)
    (hfields : ∀ field ∈ config.fields, ParsedSpec field) :
    getLines (writeSchemaFile config schemaVersion shardCount hashSeed hashVersion) =
      headerLines config schemaVersion shardCount hashSeed hashVersion++
        config.fields.flatMap fieldLines := by
  have hdecimal : ∀ n, newline ∉ decimal n := by
    intro n hmem
    have hdigit := List.all_eq_true.mp (decimal_digits n) newline hmem
    exact absurd hdigit (by decide)
  refine getLines_join fun line hline => ?_
  rcases List.mem_append.mp hline with hline | hline
  · simp only [headerLines,List.mem_cons,List.not_mem_nil,or_false] at hline
    rcases hline with rfl | rfl | rfl | rfl | rfl | rfl | rfl | rfl | rfl | rfl
    all_goals first
      | decide
      | exact fun hmem => (List.mem_append.mp hmem).elim (by decide) (hdecimal _)
      | exact fun hmem => (List.mem_append.mp hmem).elim (by decide) hname
  · obtain ⟨field,hfield,hline⟩ := List.mem_flatMap.mp hline
    have hspec := hfields field hfield
    have htype : newline ∉ fieldTypeName field.type := by
      cases field.type
      all_goals rw [fieldTypeName]; decide
    have hbool : ∀ value, newline ∉ boolName value := by decide
    have hencoding : newline ∉ fieldEncodingConfigName field.encoding := by
      cases field.encoding
      all_goals rw [fieldEncodingConfigName]; decide
    simp only [fieldLines,List.mem_cons,List.not_mem_nil,or_false] at hline
    rcases hline with rfl | rfl | rfl | rfl | rfl | rfl | rfl
    · exact fun hmem => (List.mem_append.mp hmem).elim (by decide) (hdecimal _)
    · exact fun hmem => (List.mem_append.mp hmem).elim (by decide) hspec.oneLine
    · exact fun hmem => (List.mem_append.mp hmem).elim (by decide) htype
    · exact fun hmem => (List.mem_append.mp hmem).elim (by decide) (hbool _)
    · exact fun hmem => (List.mem_append.mp hmem).elim (by decide) (hbool _)
    · exact fun hmem => (List.mem_append.mp hmem).elim (by decide) hencoding
    · exact List.not_mem_nil

variable {config} in
/-- Parsing the written text succeeds, and its names are read back. -/
theorem parse_write (hname : newline ∉ config.primaryKeyName)
    (hfields : ∀ field ∈ config.fields, ParsedSpec field) (hne : config.fields ≠ []) :
    parseSchemaFile (writeSchemaFile config schemaVersion shardCount hashSeed hashVersion) =
      .ok { readHeader config schemaVersion shardCount hashSeed hashVersion with
        fields := config.fields.map readField } := by
  have hheader := headerLines_run config schemaVersion shardCount hashSeed hashVersion
  have hstart : FlushesTo
      ⟨readHeader config schemaVersion shardCount hashSeed hashVersion,.kFields,{},false,10⟩
      (readHeader config schemaVersion shardCount hashSeed hashVersion) := ⟨rfl,fun n => rfl⟩
  obtain ⟨state,hrun,-,hflush⟩ := fields_run hfields hstart
  have hmap : (config.fields.map readField).isEmpty = false := by simpa using hne
  rw [parseSchemaFile,getLines_writeSchemaFile _ _ _ _ hname hfields,List.foldlM_append,hheader,
    ok_bind,hrun,ok_bind,hflush state.lineNumber,ok_bind]
  simp only [readHeader,List.nil_append,hmap]
  rfl

end Written

theorem parseType_name {text : Bytes} {type : FieldType} (h : parseType text = .ok type) :
    parseType (fieldTypeName type) = .ok type := by
  rw [parseType] at h
  split_ifs at h
  all_goals
    cases h
    decide

theorem parseFieldEncoding_name {name : Bytes} {isList : Bool} {type : FieldType}
    {encoding : FieldEncoding} (h : parseFieldEncoding name isList type = .ok encoding) :
    parseFieldEncoding (fieldEncodingConfigName encoding) isList type = .ok encoding := by
  have hname : fieldEncodingConfigName encoding = name := by
    rw [parseFieldEncoding] at h
    split_ifs at h with hfixed _ harena _ hdictionary hlist htype helement
    all_goals
      cases h
      first
        | exact hfixed.symm
        | exact harena.symm
        | exact hdictionary.symm
        | exact helement.symm
  rw [hname,h]

theorem parseKeyValue_value {text key value : Bytes} (h : parseKeyValue text = .ok (key,value)) :
    value.Sublist text := by
  rw [parseKeyValue] at h
  split at h
  · cases h
  · rename_i c rest hrest
    obtain ⟨_,_,h⟩ := bind_eq_ok.mp h
    cases h
    have htail : rest.Sublist text := by
      have hdrop := List.dropWhile_sublist (l := text) (· != 58)
      rw [hrest] at hdrop
      exact (List.sublist_cons_self c rest).trans hdrop
    exact (unquote_sublist _).trans ((trim_sublist rest).trans htail)

theorem onLine_eq_ok {α : Type} {what : String} {n : ℕ} {result : StatusOr α} {a : α} :
    onLine what n result = .ok a ↔ result = .ok a := by
  cases result with
  | error status => simp [onLine,Except.mapError]
  | ok b => simp [onLine,Except.mapError]

/-- A pending field, whatever keys it has so far. -/
structure PendingSpec (field : FieldSpec) : Prop where
  type : parseType (fieldTypeName field.type) = .ok field.type
  noDefault : field.defaultValue = .monostate
  active : field.deleted = false
  oneLine : newline ∉ field.name

theorem pendingSpec_default : PendingSpec {} where
  type := by decide
  noDefault := rfl
  active := rfl
  oneLine := List.not_mem_nil

/-- What holds of the variables of the line loop. -/
structure ReadSpec (state : ParseState) : Prop where
  name : newline ∉ state.config.primaryKeyName
  fields : ∀ field ∈ state.config.fields, ParsedSpec field
  pending : PendingSpec state.pendingField.field

theorem flushParsedField_spec {state state' : ParseState} (h : ReadSpec state)
    (hflush : flushParsedField state = .ok state') : ReadSpec state' := by
  rw [flushParsedField] at hflush
  split_ifs at hflush
  · cases hflush
    exact h
  · obtain ⟨_,_,hflush⟩ := bind_eq_ok.mp hflush
    obtain ⟨encoding,hencoding,hflush⟩ := bind_eq_ok.mp hflush
    cases hflush
    refine ⟨h.name,fun field hfield => ?_,pendingSpec_default⟩
    rcases List.mem_append.mp hfield with hfield | hfield
    · exact h.fields field hfield
    · rw [List.mem_singleton.mp hfield]
      exact ⟨h.pending.type,parseFieldEncoding_name hencoding,h.pending.noDefault,
        h.pending.active,h.pending.oneLine⟩

theorem applyTopLevelKey_frame {config config' : ParsedSchemaConfig} {key value : Bytes}
    (h : applyTopLevelKey config key value = .ok config') :
    config'.primaryKeyName = config.primaryKeyName ∧ config'.fields = config.fields := by
  rw [applyTopLevelKey] at h
  split_ifs at h
  all_goals
    obtain ⟨parsed,_,h⟩ := bind_eq_ok.mp h
    cases h
    exact ⟨rfl,rfl⟩

theorem applyPrimaryKey_spec {config config' : ParsedSchemaConfig} {key value : Bytes}
    (hname : newline ∉ config.primaryKeyName) (hvalue : newline ∉ value)
    (h : applyPrimaryKey config key value = .ok config') :
    newline ∉ config'.primaryKeyName ∧ config'.fields = config.fields := by
  rw [applyPrimaryKey] at h
  split_ifs at h
  · cases h
    exact ⟨hvalue,rfl⟩
  · obtain ⟨type,_,h⟩ := bind_eq_ok.mp h
    cases h
    exact ⟨hname,rfl⟩

theorem applyFieldKey_spec {pending pending' : ParsedField} {key value : Bytes}
    (hpending : PendingSpec pending.field) (hvalue : newline ∉ value)
    (h : applyFieldKey pending key value = .ok pending') : PendingSpec pending'.field := by
  obtain ⟨htype,hdefault,hactive,hname⟩ := hpending
  rw [applyFieldKey] at h
  split_ifs at h
  case pos =>
    obtain ⟨parsed,_,h⟩ := bind_eq_ok.mp h
    cases h
    exact ⟨htype,hdefault,hactive,hname⟩
  case pos =>
    cases h
    exact ⟨htype,hdefault,hactive,hvalue⟩
  case pos =>
    obtain ⟨type,hparse,h⟩ := bind_eq_ok.mp h
    cases h
    exact ⟨parseType_name hparse,hdefault,hactive,hname⟩
  case pos =>
    obtain ⟨parsed,_,h⟩ := bind_eq_ok.mp h
    cases h
    exact ⟨htype,hdefault,hactive,hname⟩
  case pos =>
    obtain ⟨parsed,_,h⟩ := bind_eq_ok.mp h
    cases h
    exact ⟨htype,hdefault,hactive,hname⟩
  case pos =>
    cases h
    exact ⟨htype,hdefault,hactive,hname⟩

theorem parseTopLevelLine_spec {state state' : ParseState} {trimmed : Bytes} (h : ReadSpec state)
    (hstep : parseTopLevelLine state trimmed = .ok state') : ReadSpec state' := by
  obtain ⟨flushed,hflush,hstep⟩ := bind_eq_ok.mp hstep
  have hflushed := flushParsedField_spec h hflush
  split_ifs at hstep
  · cases hstep
    exact ⟨hflushed.name,hflushed.fields,hflushed.pending⟩
  · cases hstep
    exact ⟨hflushed.name,hflushed.fields,hflushed.pending⟩
  · obtain ⟨⟨key,value⟩,_,hstep⟩ := bind_eq_ok.mp hstep
    obtain ⟨config,hconfig,hstep⟩ := bind_eq_ok.mp hstep
    cases hstep
    obtain ⟨hname,hfields⟩ := applyTopLevelKey_frame (onLine_eq_ok.mp hconfig)
    refine ⟨?_,?_,hflushed.pending⟩
    · rw [hname]
      exact hflushed.name
    · rw [hfields]
      exact hflushed.fields

theorem parsePrimaryKeyLine_spec {state state' : ParseState} {trimmed : Bytes} (h : ReadSpec state)
    (htrimmed : newline ∉ trimmed) (hstep : parsePrimaryKeyLine state trimmed = .ok state') :
    ReadSpec state' := by
  obtain ⟨⟨key,value⟩,hpair,hstep⟩ := bind_eq_ok.mp hstep
  obtain ⟨config,hconfig,hstep⟩ := bind_eq_ok.mp hstep
  cases hstep
  have hvalue : newline ∉ value := fun hmem =>
    htrimmed ((parseKeyValue_value (onLine_eq_ok.mp hpair)).mem hmem)
  obtain ⟨hname,hfields⟩ := applyPrimaryKey_spec h.name hvalue (onLine_eq_ok.mp hconfig)
  refine ⟨hname,?_,h.pending⟩
  rw [hfields]
  exact h.fields

theorem parseFieldKey_spec {state state' : ParseState} {text : Bytes} (h : ReadSpec state)
    (htext : newline ∉ text) (hstep : parseFieldKey state text = .ok state') : ReadSpec state' := by
  obtain ⟨⟨key,value⟩,hpair,hstep⟩ := bind_eq_ok.mp hstep
  obtain ⟨pending,happly,hstep⟩ := bind_eq_ok.mp hstep
  cases hstep
  have hvalue : newline ∉ value := fun hmem =>
    htext ((parseKeyValue_value (onLine_eq_ok.mp hpair)).mem hmem)
  exact ⟨h.name,h.fields,applyFieldKey_spec h.pending hvalue (onLine_eq_ok.mp happly)⟩

theorem parseFieldLine_spec {state state' : ParseState} {trimmed : Bytes} (h : ReadSpec state)
    (htrimmed : newline ∉ trimmed) (hstep : parseFieldLine state trimmed = .ok state') :
    ReadSpec state' := by
  rw [parseFieldLine] at hstep
  split_ifs at hstep
  · obtain ⟨flushed,hflush,hstep⟩ := bind_eq_ok.mp hstep
    have hflushed := flushParsedField_spec h hflush
    have hitem : ReadSpec { flushed with hasPendingField := true } :=
      ⟨hflushed.name,hflushed.fields,hflushed.pending⟩
    dsimp only at hstep
    split_ifs at hstep
    · cases hstep
      exact hitem
    · refine parseFieldKey_spec hitem (fun hmem => htrimmed ?_) hstep
      exact ((trim_sublist _).trans (List.drop_sublist 2 trimmed)).mem hmem
  · obtain ⟨_,_,hstep⟩ := bind_eq_ok.mp hstep
    exact parseFieldKey_spec h htrimmed hstep

theorem parseLine_spec {state state' : ParseState} {line : Bytes} (h : ReadSpec state)
    (hline : newline ∉ line) (hstep : parseLine state line = .ok state') : ReadSpec state' := by
  have hnext : ReadSpec { state with lineNumber := state.lineNumber+1 } :=
    ⟨h.name,h.fields,h.pending⟩
  have htrimmed : newline ∉ trim (stripComment line) := fun hmem =>
    hline (((trim_sublist _).trans (stripFrom_isPrefix _ _ line).sublist).mem hmem)
  unfold parseLine at hstep
  dsimp only at hstep
  split_ifs at hstep
  · cases hstep
    exact hnext
  · exact parseTopLevelLine_spec hnext hstep
  · split at hstep
    · exact parsePrimaryKeyLine_spec hnext htrimmed hstep
    · exact parseFieldLine_spec hnext htrimmed hstep
    · cases hstep

theorem parseLines_spec {lines : List Bytes} (hlines : ∀ line ∈ lines, newline ∉ line)
    {state state' : ParseState} (h : ReadSpec state)
    (hrun : lines.foldlM parseLine state = .ok state') : ReadSpec state' := by
  induction lines generalizing state with
  | nil =>
    cases hrun
    exact h
  | cons line lines ih =>
    rw [List.foldlM_cons] at hrun
    obtain ⟨next,hstep,hrun⟩ := bind_eq_ok.mp hrun
    exact ih (fun other hother => hlines other (List.mem_cons_of_mem line hother))
      (parseLine_spec h (hlines line List.mem_cons_self) hstep) hrun

theorem parseSchemaFile_spec {text : Bytes} {config : ParsedSchemaConfig}
    (h : parseSchemaFile text = .ok config) :
    newline ∉ config.primaryKeyName ∧ (∀ field ∈ config.fields, ParsedSpec field) ∧
      config.fields ≠ [] := by
  obtain ⟨state,hrun,h⟩ := bind_eq_ok.mp h
  obtain ⟨flushed,hflush,h⟩ := bind_eq_ok.mp h
  have hstart : ReadSpec {} :=
    ⟨List.not_mem_nil,fun field hfield => absurd hfield List.not_mem_nil,pendingSpec_default⟩
  have hspec := flushParsedField_spec
    (parseLines_spec (newline_not_mem_getLines text) hstart hrun) hflush
  obtain ⟨_,_,h⟩ := bind_eq_ok.mp h
  obtain ⟨_,_,h⟩ := bind_eq_ok.mp h
  obtain ⟨_,_,h⟩ := bind_eq_ok.mp h
  obtain ⟨_,hempty,h⟩ := bind_eq_ok.mp h
  cases h
  rw [failIf_eq_ok] at hempty
  exact ⟨hspec.name,hspec.fields,List.isEmpty_eq_false_iff.mp hempty⟩

/-- `parsed` is the schema of `config` under the settings of a build. -/
structure Describes (parsed config : ParsedSchemaConfig) (schemaVersion : UInt64)
    (shardCount : UInt32) (hashSeed : UInt64) (hashVersion : UInt32) : Prop where
  schemaVersion : parsed.schemaVersion = schemaVersion
  shardCount : parsed.shardCount = some shardCount
  hashSeed : parsed.hashSeed = some hashSeed
  hashVersion : parsed.hashVersion = some hashVersion
  primaryKeyName : parsed.primaryKeyName = config.primaryKeyName
  fields : parsed.fields = config.fields

/-- The file that a build emits describes its schema iff every name is plain. -/
theorem emitted_schema_iff {text : Bytes} {config : ParsedSchemaConfig}
    (haccepted : parseSchemaFile text = .ok config) (schemaVersion : UInt64) (shardCount : UInt32)
    (hashSeed : UInt64) (hashVersion : UInt32) :
    (∃ parsed, parseSchemaFile
        (writeSchemaFile config schemaVersion shardCount hashSeed hashVersion) = .ok parsed ∧
      Describes parsed config schemaVersion shardCount hashSeed hashVersion) ↔
    Plain config.primaryKeyName ∧ ∀ field ∈ config.fields, Plain field.name := by
  obtain ⟨hname,hfields,hne⟩ := parseSchemaFile_spec haccepted
  have hparse := parse_write schemaVersion shardCount hashSeed hashVersion hname hfields hne
  have hread : config.fields.map readField = config.fields ↔
      ∀ field ∈ config.fields, Plain field.name := by
    conv_lhs => rhs; rw [← List.map_id config.fields]
    rw [List.map_inj_left]
    refine forall₂_congr fun field _ => ?_
    rw [← readBack_eq_self]
    constructor
    · intro h
      exact congrArg FieldSpec.name h
    · intro h
      rw [readField,h]
      rfl
  rw [← readBack_eq_self,← hread]
  constructor
  · rintro ⟨parsed,hparsed,hdescribes⟩
    rw [hparse] at hparsed
    cases hparsed
    exact ⟨hdescribes.primaryKeyName,hdescribes.fields⟩
  · rintro ⟨hprimary,hsame⟩
    exact ⟨_,hparse,rfl,rfl,rfl,rfl,hprimary,hsame⟩

/-- A schema of one field, with the name as it stands in the file. -/
def oneFieldText (name : String) : Bytes :=
  ascii ("schema_version: 3\n\nprimary_key:\n  name: id\n  type: uint64\n\nfields:\n"++
    "  - field_id: 1\n    name: "++name++"\n    type: int32\n    is_list: false\n"++
    "    nullable: true\n    encoding: fixed\n")

def oneFieldConfig (name : String) : ParsedSchemaConfig where
  schemaVersion := 3
  hasSchemaVersion := true
  primaryKeyName := ascii "id"
  hasPrimaryKeyName := true
  hasPrimaryKeyType := true
  fields := [{ fieldId := 1,name := ascii name,type := .kInt32 }]

theorem emitted_schema_sample :
    ∃ parsed, parseSchemaFile (writeSchemaFile (oneFieldConfig "age") 3 4 7 1) = .ok parsed ∧
      Describes parsed (oneFieldConfig "age") 3 4 7 1 := by
  have haccepted : parseSchemaFile (oneFieldText "age") = .ok (oneFieldConfig "age") := by
    decide +kernel
  exact (emitted_schema_iff haccepted 3 4 7 1).mpr (by decide +kernel)

/-- A quoted name with a number sign is accepted, and printed without its quotes. -/
theorem number_sign_cut :
    parseSchemaFile (oneFieldText "\"a#b\"") = .ok (oneFieldConfig "a#b") ∧
      parseSchemaFile (writeSchemaFile (oneFieldConfig "a#b") 3 4 7 1) =
        .ok { readHeader (oneFieldConfig "a") 3 4 7 1 with
          fields := (oneFieldConfig "a").fields } ∧
      ¬∃ parsed, parseSchemaFile (writeSchemaFile (oneFieldConfig "a#b") 3 4 7 1) = .ok parsed ∧
        Describes parsed (oneFieldConfig "a#b") 3 4 7 1 := by
  have hparse : parseSchemaFile (writeSchemaFile (oneFieldConfig "a#b") 3 4 7 1) =
      .ok { readHeader (oneFieldConfig "a") 3 4 7 1 with
        fields := (oneFieldConfig "a").fields } := by decide +kernel
  refine ⟨by decide +kernel,hparse,?_⟩
  rintro ⟨parsed,hparsed,hdescribes⟩
  rw [hparse] at hparsed
  cases hparsed
  exact absurd hdescribes.fields (by decide +kernel)

end Offline
end KvIndex
