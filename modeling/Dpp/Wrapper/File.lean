import Dpp.Wrapper.Line

/-!
# The generated file

The loop of `CRT/gen_wrapper.sh` collects four texts, and writes them one behind the other.

* `typedefText`, `staticText`, `lookupText`, `wrapperText`: what a line adds to the four texts.
* `takeLine`, `run`: a turn of the loop; the script.
* `ntdll_zw_functions`: what the generated function returns.
* `LosesNoLine`: every line is in the output or reported; **`losesNoLine_iff_complete`**.
-/

namespace Dpp.Wrapper

open Lib Lib.Shell

/-! ## What a line adds -/

namespace Entry

variable (e : Entry)

/-- `TYPE` -/
def type : List Char := e.fnname ++ "_t".toList

/-- `VAR` -/
def var : List Char := "_".toList ++ e.fnname

/-- The name without the underscore in front. -/
def fnname_str : List Char := if e.symbolExists then e.fnname.drop 1 else e.fnname

/-- The `\n` is two characters up to the `echo`. -/
def typedefText : List Char :=
  "\\ntypedef ".toList ++ e.rtype ++ " (*".toList ++ e.type ++ ") ".toList ++ e.fnsig ++ ";".toList

def staticText : List Char :=
  "\\nstatic ".toList ++ e.type ++ " ".toList ++ e.var ++ " = NULL;".toList

def lookupLines : List (List Char) :=
  ["#ifdef __cplusplus".toList,
    "    RtlInitUnicodeString(&fnName, skCrypt(L\"".toList ++ e.fnname_str ++ "\"));".toList,
    "#else".toList,
    "    RtlInitUnicodeString(&fnName, L\"".toList ++ e.fnname_str ++ "\");".toList,
    "#endif".toList,
    "    ".toList ++ e.var ++ " = (".toList ++ e.type ++
      ")MmGetSystemRoutineAddress(&fnName);".toList,
    "    if (".toList ++ e.var ++ " == NULL)".toList,
    "    \x7b".toList,
    "#ifdef __cplusplus".toList,
    "        DbgPrint(skCrypt(\"%s\\\\n\"), skCrypt(\"System routine ".toList ++ e.fnname_str ++
      " not found.\"));".toList,
    "#else".toList,
    "        DbgPrint(\"%s\\\\n\", \"System routine ".toList ++ e.fnname_str ++
      " not found.\");".toList,
    "#endif".toList,
    "        retval++;".toList,
    "    \x7d".toList]

def lookupText : List Char := "\n".toList ++ joinLines e.lookupLines

def wrapperHead : List Char :=
  "\n\n".toList ++ e.rtype ++ " ".toList ++ e.fnname ++ " ".toList ++ e.fnsig ++ "\n\x7b".toList

def wrapperLines (statement : List Char) : List (List Char) :=
  ["    if (".toList ++ e.var ++ " == NULL)".toList,
    "        ".toList ++ statement,
    [],
    "    return ".toList ++ e.var ++ " (".toList ++ e.params ++ ");".toList,
    "\x7d".toList,
    [],
    e.rtype ++ " Wrapper".toList ++ e.fnname_str ++ " ".toList ++ e.fnsig,
    "\x7b".toList,
    "    return ".toList ++ e.var ++ " (".toList ++ e.params ++ ");".toList,
    "\x7d".toList]

/-- The `case` on the return type; `none` is `exit 1`. -/
def statement : Option (List Char) :=
  if "BOOLEAN".toList <:+: e.rtype then some "return FALSE;".toList
  else if "NTSTATUS".toList <:+: e.rtype then some "return STATUS_PROCEDURE_NOT_FOUND;".toList
  else if "PVOID".toList <:+: e.rtype ∨ "PEX_TIMER".toList <:+: e.rtype then
    some "return NULL;".toList
  else if "VOID".toList <:+: e.rtype then some "return;".toList
  else none

def wrapperBody (statement : List Char) : List Char :=
  "\n".toList ++ joinLines (e.wrapperLines statement)

/-- The two wrappers of a line. -/
def wrapperText : List Char := e.wrapperHead ++ e.wrapperBody (e.statement.getD [])

end Entry

/-! ## The script -/

/-- What the loop collects. -/
structure Loop where
  typedefs : List Char
  statics : List Char
  inits : List Char
  wrappers : List Char
  curline : ℕ
  reports : List (List Char)

def Loop.init : Loop := ⟨[], [], [], [], 0, []⟩

/-- What an accepted line does; a here document ends in a newline, which `$(...)` takes off. -/
def Loop.emit (s : Loop) (e : Entry) : Option Loop :=
  e.statement.map fun statement =>
    { s with
      typedefs := s.typedefs ++ e.typedefText
      statics := s.statics ++ e.staticText
      inits := substitution (s.inits ++ e.lookupText ++ "\n".toList)
      wrappers :=
        substitution (substitution (s.wrappers ++ e.wrapperHead ++ "\n".toList) ++
          e.wrapperBody statement ++ "\n".toList) }

/-- A turn of the loop; `none` is `exit 1`. -/
def Loop.takeLine (g : PathnameExpansion) (s : Loop) (raw : List Char) : Option Loop :=
  let s := { s with curline := s.curline + 1 }
  match parseLine g s.curline raw with
  | .skipped => some s
  | .rejected rs => some { s with reports := s.reports ++ rs }
  | .accepted e => s.emit e

/-- How the script is called: its own name, and that of the function list, as `basename` has them,
and the directory it runs in. -/
structure Call where
  script : List Char
  list : List Char
  directory : PathnameExpansion

def prologue (c : Call) : List Char :=
  joinLines ["/* This file was auto generated by ".toList ++ c.script ++ " */".toList,
    "#include <ntddk.h>".toList, [], "#ifdef __cplusplus".toList,
    "#define _KERNEL_MODE 1".toList, "#include \"obfuscate.hpp\"".toList, [],
    "extern \"C\" \x7b".toList, "#endif".toList, []]

def functionHead (c : Call) : List Char :=
  joinLines [[], "int __cdecl ".toList ++ c.list ++ " (void)".toList, "\x7b".toList,
    "    int retval = 0;".toList, "    UNICODE_STRING fnName;".toList, []]

def functionEnd : List Char := "\n    return retval;\n\x7d\n".toList

def epilogue : List Char := "\n#ifdef __cplusplus\n\x7d;\n#endif\n".toList

structure Output where
  stdout : List Char
  reports : List (List Char)
  /-- The number in `lines parsed`. -/
  parsed : ℕ

/-- What the script writes behind the loop. -/
def Loop.output (c : Call) (s : Loop) : Output where
  stdout := prologue c ++ echo s.typedefs ++ echo s.statics ++ functionHead c ++ echo s.inits ++
    functionEnd ++ echo s.wrappers ++ epilogue
  reports := s.reports
  parsed := s.curline

/-- The script. What follows the last newline is not taken: there `read` fails. -/
def run (c : Call) (file : List Char) : Option Output :=
  ((completeLines file).foldlM (Loop.takeLine c.directory) Loop.init).map (Loop.output c)

/-- The generated function, for what each of its lookups finds. -/
def ntdll_zw_functions (found : List Bool) : BitVec 32 :=
  found.foldl (fun retval ok => if ok then retval else retval + 1) 0

/-! ## A turn of the loop -/

section Texts

variable {e : Entry} {s : Loop} {t : List Char}

theorem Entry.Valid.exists_statement (h : e.Valid) : ∃ statement, e.statement = some statement := by
  have hall : ∀ r ∈ returnTypes, (Entry.statement ⟨r, [], false, [], []⟩).isSome := by decide
  have hsome : e.statement.isSome := hall e.rtype h.rtype_mem
  exact Option.isSome_iff_exists.mp hsome

theorem closed_of_suffix {c : Char} (ht : [c] <:+ t) (h : c = ';' ∨ c = '\x7d') : Closed t := by
  rcases h with rfl | rfl
  · exact ⟨_, ht, by decide, by decide⟩
  · exact ⟨_, ht, by decide, by decide⟩

theorem Entry.closed_typedefText : Closed e.typedefText :=
  closed_of_suffix (List.suffix_append _ ";".toList) (.inl rfl)

theorem Entry.closed_staticText : Closed e.staticText :=
  closed_of_suffix (.trans ⟨" = NULL".toList, rfl⟩ (List.suffix_append ..)) (.inl rfl)

/-- A block ends in a brace. -/
theorem Entry.brace_suffix_lookupText : ['\x7d'] <:+ e.lookupText :=
  .trans ⟨"    ".toList, rfl⟩ (.trans (suffix_joinLines_concat e.lookupLines.dropLast _)
    (List.suffix_append ..))

theorem Entry.brace_suffix_wrapperBody (statement : List Char) :
    ['\x7d'] <:+ e.wrapperBody statement :=
  (suffix_joinLines_concat (e.wrapperLines statement).dropLast _).trans (List.suffix_append ..)

theorem Entry.brace_suffix_wrapperHead : ['\x7b'] <:+ e.wrapperHead :=
  .trans ⟨"\n".toList, rfl⟩ (List.suffix_append ..)

theorem Entry.closed_lookupText : Closed e.lookupText :=
  closed_of_suffix e.brace_suffix_lookupText (.inr rfl)

theorem Entry.closed_wrapperText : Closed e.wrapperText :=
  closed_of_suffix ((e.brace_suffix_wrapperBody _).trans (List.suffix_append ..)) (.inr rfl)

/-- The loop with an entry more. -/
def Loop.add (s : Loop) (e : Entry) : Loop :=
  { s with
    typedefs := s.typedefs ++ e.typedefText
    statics := s.statics ++ e.staticText
    inits := s.inits ++ e.lookupText
    wrappers := s.wrappers ++ e.wrapperText }

/-- The four texts grow together. -/
theorem Loop.emit_eq (h : e.Valid) : s.emit e = some (s.add e) := by
  obtain ⟨statement, hs⟩ := h.exists_statement
  have hinits : substitution (s.inits ++ e.lookupText ++ "\n".toList) = s.inits ++ e.lookupText :=
    substitution_concat_newline (by decide)
      (e.brace_suffix_lookupText.trans (List.suffix_append ..))
  have hhead : substitution (s.wrappers ++ e.wrapperHead ++ "\n".toList) =
      s.wrappers ++ e.wrapperHead :=
    substitution_concat_newline (by decide)
      (e.brace_suffix_wrapperHead.trans (List.suffix_append ..))
  have hbody :
      substitution (s.wrappers ++ e.wrapperHead ++ e.wrapperBody statement ++ "\n".toList) =
        s.wrappers ++ e.wrapperHead ++ e.wrapperBody statement :=
    substitution_concat_newline (by decide)
      ((e.brace_suffix_wrapperBody statement).trans (List.suffix_append ..))
  rw [Loop.emit, hs, Option.map_some, hinits, hhead, hbody, Loop.add, Entry.wrapperText, hs,
    Option.getD_some, List.append_assoc s.wrappers]

/-! ## A `\c` in a line -/

theorem not_stops_of_mem_returnTypes (h : t ∈ returnTypes) : ¬ stops t := by
  have hall : ∀ r ∈ returnTypes, ¬ stops r := by decide
  exact hall t h

theorem not_stops_of_statement (h : e.statement = some t) : ¬ stops t := by
  unfold Entry.statement at h
  split_ifs at h <;> cases h <;> decide

theorem stops_typedefText_iff (h : e.Valid) :
    stops e.typedefText ↔ stops e.fnname ∨ stops e.fnsig := by
  have hr := not_stops_of_mem_returnTypes h.rtype_mem
  unfold Entry.typedefText Entry.type
  simp (disch := decide) only [List.append_assoc, stops_text_append, stops_append_text_append,
    stops_append_text, hr, false_or]

theorem stops_staticText_iff : stops e.staticText ↔ stops e.fnname := by
  unfold Entry.staticText Entry.type Entry.var
  simp (disch := decide) only [List.append_assoc, stops_text_append, stops_append_text_append,
    stops_append_text, or_self]

/-- The underscore is a character like another. -/
theorem stops_fnname_str_iff (h : e.Valid) : stops e.fnname_str ↔ stops e.fnname := by
  unfold Entry.fnname_str
  split_ifs with hs
  · obtain ⟨u, hu⟩ := h.symbolExists hs
    rw [hu]
    exact (stops_text_append (s := ['_']) (by decide)).symm
  · exact Iff.rfl

theorem stops_lookupText_iff (h : e.Valid) : stops e.lookupText ↔ stops e.fnname := by
  have hf := stops_fnname_str_iff h
  unfold Entry.lookupText Entry.lookupLines Entry.type Entry.var
  simp (disch := decide) only [joinLines_cons_cons, joinLines_singleton, List.append_assoc,
    stops_text, stops_text_append, stops_append_text_append, hf, or_self, or_false]

theorem stops_wrapperText_iff (h : e.Valid) :
    stops e.wrapperText ↔ stops e.fnname ∨ stops e.fnsig ∨ stops e.params := by
  have hr := not_stops_of_mem_returnTypes h.rtype_mem
  have hf := stops_fnname_str_iff h
  obtain ⟨statement, hs⟩ := h.exists_statement
  have hst := not_stops_of_statement hs
  unfold Entry.wrapperText Entry.wrapperHead Entry.wrapperBody Entry.wrapperLines Entry.var
  simp (disch := decide) only [joinLines_cons_cons, joinLines_singleton, List.append_assoc, hs,
    Option.getD_some, stops_text, stops_text_append, stops_append_text_append, hf, hr, hst,
    or_false, false_or]
  tauto

end Texts

/-! ## The lines of a file -/

def LineResult.entries : LineResult → List Entry
  | accepted e => [e]
  | _ => []

def LineResult.reports : LineResult → List (List Char)
  | rejected rs => rs
  | _ => []

/-- The lines behind the first `n`. -/
def parseLines (g : PathnameExpansion) : ℕ → List (List Char) → List LineResult
  | _, [] => []
  | n, l :: ls => parseLine g (n + 1) l :: parseLines g (n + 1) ls

variable {c : Call} {g : PathnameExpansion} {s : Loop} {n : ℕ} {raw : List Char}
  {ls ls' : List (List Char)} {e : Entry}

theorem parseLines_append :
    parseLines g n (ls ++ ls') = parseLines g n ls ++ parseLines g (n + ls.length) ls' := by
  induction ls generalizing n with
  | nil => rfl
  | cons l ls ih =>
    rw [List.cons_append, parseLines, ih, parseLines, List.length_cons, List.cons_append,
      Nat.add_right_comm n 1, Nat.add_assoc]

theorem valid_of_mem_entries (h : e ∈ (parseLines g n ls).flatMap LineResult.entries) :
    e.Valid := by
  induction ls generalizing n with
  | nil => exact absurd h List.not_mem_nil
  | cons l ls ih =>
    rw [parseLines, List.flatMap_cons] at h
    rcases List.mem_append.mp h with h | h
    · cases hp : parseLine g (n + 1) l with
      | skipped | rejected rs =>
        rw [hp] at h
        exact absurd h List.not_mem_nil
      | accepted e' =>
        rw [hp] at h
        exact List.mem_singleton.mp h ▸ valid_of_accepted hp
    · exact ih h

/-- The texts of some entries, one behind the other. -/
def texts (f : Entry → List Char) (es : List Entry) : List Char := (es.map f).flatten

/-- The loop with some lines more. -/
def Loop.addLines (s : Loop) (rs : List LineResult) : Loop where
  typedefs := s.typedefs ++ texts Entry.typedefText (rs.flatMap LineResult.entries)
  statics := s.statics ++ texts Entry.staticText (rs.flatMap LineResult.entries)
  inits := s.inits ++ texts Entry.lookupText (rs.flatMap LineResult.entries)
  wrappers := s.wrappers ++ texts Entry.wrapperText (rs.flatMap LineResult.entries)
  curline := s.curline + rs.length
  reports := s.reports ++ rs.flatMap LineResult.reports

theorem Loop.takeLine_eq :
    s.takeLine g raw = some (s.addLines [parseLine g (s.curline + 1) raw]) := by
  unfold Loop.takeLine
  dsimp only
  cases hp : parseLine g (s.curline + 1) raw with
  | skipped => simp [addLines, texts, LineResult.entries, LineResult.reports]
  | rejected rs => simp [addLines, texts, LineResult.entries, LineResult.reports]
  | accepted e =>
    dsimp only
    rw [emit_eq (valid_of_accepted hp)]
    simp [addLines, add, texts, LineResult.entries, LineResult.reports]

theorem Loop.addLines_append (rs rs' : List LineResult) :
    (s.addLines rs).addLines rs' = s.addLines (rs ++ rs') := by
  simp [addLines, texts, Nat.add_assoc]

/-- **The loop** does not exit, and has of each line what the line says. -/
theorem Loop.foldlM_takeLine :
    ls.foldlM (Loop.takeLine g) s = some (s.addLines (parseLines g s.curline ls)) := by
  induction ls generalizing s with
  | nil => simp [addLines, texts, parseLines]
  | cons l ls ih =>
    rw [List.foldlM_cons, takeLine_eq]
    change ls.foldlM (Loop.takeLine g) (s.addLines [parseLine g (s.curline + 1) l]) = _
    rw [ih, addLines_append]
    rfl

/-! ## What the output has to be -/

/-- What becomes of the lines of a file, and of what follows the last newline. -/
def lineResults (c : Call) (file : List Char) : List LineResult :=
  parseLines c.directory 0 (file.splitOn '\n')

def entries (c : Call) (file : List Char) : List Entry :=
  (lineResults c file).flatMap LineResult.entries

/-- The generated file with a typedef, a pointer, a lookup and two wrappers for each entry, and
nothing else. -/
def generated (c : Call) (es : List Entry) : List Char :=
  prologue c ++ (texts (echoed ∘ Entry.typedefText) es ++ ['\n']) ++
    (texts (echoed ∘ Entry.staticText) es ++ ['\n']) ++ functionHead c ++
    (texts (echoed ∘ Entry.lookupText) es ++ ['\n']) ++ functionEnd ++
    (texts (echoed ∘ Entry.wrapperText) es ++ ['\n']) ++ epilogue

/-- Every line that is not blank and no comment is an entry or reported, the entries of the file
are what is generated and the reports what is on stderr, and the generated function counts. -/
structure LosesNoLine (c : Call) (file : List Char) : Prop where
  taken : ∀ n, ∀ raw ∈ file.splitOn '\n', ¬ skips (trim raw) →
    (parseLine c.directory n raw).entries.length = 1 ∨ (parseLine c.directory n raw).reports ≠ []
  output : ∃ out, run c file = some out ∧ out.stdout = generated c (entries c file) ∧
    out.reports = (lineResults c file).flatMap LineResult.reports
  retval : ∀ found : List Bool, found.length = (entries c file).length →
    (ntdll_zw_functions found = 0 ↔ ∀ ok ∈ found, ok)

/-- A file whose last line has its newline, without a `\c` in what is taken from a line, and with
fewer functions than an `int` can count. -/
structure Complete (c : Call) (file : List Char) : Prop where
  last : skips (trim (rest file))
  quiet : ∀ e ∈ entries c file, ¬ stops e.fnname ∧ ¬ stops e.fnsig ∧ ¬ stops e.params
  few : (entries c file).length < 2 ^ 32

section Lengths

variable {f : Entry → List Char} {es : List Entry}

theorem texts_append (es es' : List Entry) : texts f (es ++ es') = texts f es ++ texts f es' := by
  rw [texts, List.map_append, List.flatten_append, texts, texts]

theorem texts_echoed (f : Entry → List Char) (es : List Entry) :
    texts (echoed ∘ f) es = ((es.map f).map echoed).flatten := by
  rw [texts, List.map_map]

theorem echo_texts (hf : ∀ e, Closed (f e)) (hs : ∀ e ∈ es, ¬ stops (f e)) :
    echo (texts f es) = texts (echoed ∘ f) es ++ ['\n'] := by
  rw [texts_echoed]
  refine echo_flatten ?_ ?_
  · exact List.forall_mem_map.mpr fun e _ => hf e
  · exact List.forall_mem_map.mpr hs

theorem length_echo_texts_le (es : List Entry) (hf : ∀ e, Closed (f e)) :
    (echo (texts f es)).length ≤ (texts (echoed ∘ f) es).length + 1 := by
  rw [texts_echoed]
  exact length_echo_le (List.forall_mem_map.mpr fun e _ => hf e)

theorem length_echo_texts_lt (hf : ∀ e, Closed (f e)) (he : e ∈ es) (hs : stops (f e)) :
    (echo (texts f es)).length < (texts (echoed ∘ f) es).length + 1 := by
  rw [texts_echoed]
  exact length_echo_lt (List.forall_mem_map.mpr fun e _ => hf e) ⟨f e, List.mem_map_of_mem he, hs⟩

theorem length_echoed_typedefText : 0 < (echoed e.typedefText).length := Nat.succ_pos _

end Lengths

/-! ## The generated function -/

theorem ntdll_zw_functions_eq (found : List Bool) :
    ntdll_zw_functions found = BitVec.ofNat 32 (found.count false) := by
  have hfold : ∀ r : BitVec 32, found.foldl (fun retval ok => if ok then retval else retval + 1) r =
      r + BitVec.ofNat 32 (found.count false) := by
    induction found with
    | nil => intro r; simp
    | cons ok found ih =>
      intro r
      rw [List.foldl_cons, ih]
      cases ok with
      | true => simp
      | false =>
        rw [List.count_cons_self, if_neg Bool.false_ne_true, BitVec.ofNat_add, BitVec.add_assoc,
          BitVec.add_comm (BitVec.ofNat 32 _)]
        rfl
  rw [ntdll_zw_functions, hfold]
  exact BitVec.zero_add _

/-- The count does not wrap below 2^32. -/
theorem ntdll_zw_functions_eq_zero_iff {found : List Bool} (h : found.length < 2 ^ 32) :
    ntdll_zw_functions found = 0 ↔ ∀ ok ∈ found, ok := by
  have hcount : found.count false < 2 ^ 32 := lt_of_le_of_lt List.count_le_length h
  rw [ntdll_zw_functions_eq, ← BitVec.toNat_inj, BitVec.toNat_ofNat, Nat.mod_eq_of_lt hcount]
  change found.count false = 0 ↔ _
  rw [List.count_eq_zero]
  constructor
  · intro hn ok hok
    cases ok with
    | true => rfl
    | false => exact absurd hok hn
  · exact fun hall hn => Bool.false_ne_true (hall false hn)

/-- Some lookups that fail, and some that do not. -/
theorem ntdll_zw_functions_replicate (m k : ℕ) :
    ntdll_zw_functions (List.replicate m false ++ List.replicate k true) = BitVec.ofNat 32 m := by
  have hk : (List.replicate k true).count false = 0 := by
    rw [List.count_eq_zero]
    exact fun h => Bool.false_ne_true (List.eq_of_mem_replicate h)
  rw [ntdll_zw_functions_eq, List.count_append, List.count_replicate_self, hk, Nat.add_zero]

/-! ## Every line, exactly if the file is complete -/

/-- The entries of the lines that `read` succeeds on. -/
def taken (c : Call) (file : List Char) : List Entry :=
  (parseLines c.directory 0 (completeLines file)).flatMap LineResult.entries

/-- What the script would have of the rest. -/
def lastResult (c : Call) (file : List Char) : LineResult :=
  parseLine c.directory ((completeLines file).length + 1) (rest file)

variable {file : List Char}

theorem lineResults_eq : lineResults c file =
    parseLines c.directory 0 (completeLines file) ++ [lastResult c file] := by
  rw [lineResults, ← completeLines_append_rest, parseLines_append, Nat.zero_add]
  rfl

theorem entries_eq : entries c file = taken c file ++ (lastResult c file).entries := by
  rw [entries, lineResults_eq, List.flatMap_append, List.flatMap_singleton, taken]

theorem run_eq : run c file =
    some (Loop.output c (Loop.init.addLines (parseLines c.directory 0 (completeLines file)))) := by
  rw [run, Loop.foldlM_takeLine, Option.map_some]
  rfl

/-- What is written, from what was taken. -/
theorem stdout_eq : (Loop.output c (Loop.init.addLines (parseLines c.directory 0
    (completeLines file)))).stdout =
    prologue c ++ echo (texts Entry.typedefText (taken c file)) ++
      echo (texts Entry.staticText (taken c file)) ++ functionHead c ++
      echo (texts Entry.lookupText (taken c file)) ++ functionEnd ++
      echo (texts Entry.wrapperText (taken c file)) ++ epilogue := rfl

/-- A line is taken or reported. -/
theorem entries_or_reports (h : ¬ skips (trim raw)) :
    (parseLine g n raw).entries.length = 1 ∨ (parseLine g n raw).reports ≠ [] := by
  cases hp : parseLine g n raw with
  | skipped => exact absurd (parseLine_skipped_iff.mp hp) h
  | rejected rs => exact .inr (parseLine_rejected hp)
  | accepted e => exact .inl rfl

theorem losesNoLine_of_complete (h : Complete c file) : LosesNoLine c file := by
  have hlast : lastResult c file = .skipped := parseLine_skipped_iff.mpr h.last
  have hentries : entries c file = taken c file := by
    rw [entries_eq, hlast]
    exact List.append_nil _
  have hvalid : ∀ e ∈ taken c file, e.Valid := fun e he => valid_of_mem_entries he
  have hquiet := hentries ▸ h.quiet
  refine ⟨fun n raw _ hs => entries_or_reports hs, ⟨_, run_eq, ?_, ?_⟩, ?_⟩
  · rw [stdout_eq, hentries, generated]
    rw [echo_texts (fun e => e.closed_typedefText), echo_texts (fun e => e.closed_staticText),
      echo_texts (fun e => e.closed_lookupText), echo_texts (fun e => e.closed_wrapperText)]
    · intro e he
      obtain ⟨hname, hsig, hparams⟩ := hquiet e he
      rw [stops_wrapperText_iff (hvalid e he), not_or, not_or]
      exact ⟨hname, hsig, hparams⟩
    · intro e he
      rw [stops_lookupText_iff (hvalid e he)]
      exact (hquiet e he).1
    · intro e he
      rw [stops_staticText_iff]
      exact (hquiet e he).1
    · intro e he
      obtain ⟨hname, hsig, -⟩ := hquiet e he
      rw [stops_typedefText_iff (hvalid e he), not_or]
      exact ⟨hname, hsig⟩
  · rw [lineResults_eq, List.flatMap_append, hlast]
    exact (List.append_nil _).symm
  · intro found hf
    exact ntdll_zw_functions_eq_zero_iff (hf ▸ h.few)

/-- The reports and the length of the output tell what happened to the rest and to each text. -/
theorem complete_of_losesNoLine (h : LosesNoLine c file) : Complete c file := by
  obtain ⟨-, ⟨out, hrun, hout, hreports⟩, hretval⟩ := h
  rw [run_eq, Option.some.injEq] at hrun
  subst hrun
  have hlen := congrArg List.length hout
  simp only [stdout_eq, entries_eq, generated, texts_append, List.length_append,
    List.length_singleton] at hlen
  have htypedef := length_echo_texts_le (taken c file) fun e => e.closed_typedefText
  have hstatic := length_echo_texts_le (taken c file) fun e => e.closed_staticText
  have hlookup := length_echo_texts_le (taken c file) fun e => e.closed_lookupText
  have hwrapper := length_echo_texts_le (taken c file) fun e => e.closed_wrapperText
  have hlast : lastResult c file = .skipped := by
    cases hl : lastResult c file with
    | skipped => rfl
    | rejected rs =>
      rw [lineResults_eq, List.flatMap_append, hl] at hreports
      exact absurd (List.self_eq_append_right.mp hreports) fun hrs =>
        parseLine_rejected hl ((List.append_nil rs).symm.trans hrs)
    | accepted e =>
      have hpos : 0 < (texts (echoed ∘ Entry.typedefText) (lastResult c file).entries).length := by
        have hnew : texts (echoed ∘ Entry.typedefText) (lastResult c file).entries =
            echoed e.typedefText := by
          rw [hl]
          exact List.append_nil _
        rw [hnew]
        exact length_echoed_typedefText
      omega
  have hentries : entries c file = taken c file := by
    rw [entries_eq, hlast]
    exact List.append_nil _
  refine ⟨parseLine_skipped_iff.mp hlast, fun e he => ?_, ?_⟩
  · have hvalid : e.Valid := valid_of_mem_entries he
    rw [hentries] at he
    -- the wrappers have all three
    have hquiet : ¬ stops e.wrapperText := fun hs => by
      have := length_echo_texts_lt (fun e => e.closed_wrapperText) he hs
      omega
    rwa [stops_wrapperText_iff hvalid, not_or, not_or] at hquiet
  · by_contra hmany
    have hsum : 2 ^ 32 + ((entries c file).length - 2 ^ 32) = (entries c file).length :=
      Nat.add_sub_of_le (not_lt.mp hmany)
    have hzero := hretval (List.replicate (2 ^ 32) false ++
      List.replicate ((entries c file).length - 2 ^ 32) true)
      (by rw [List.length_append, List.length_replicate, List.length_replicate, hsum])
    rw [ntdll_zw_functions_replicate] at hzero
    have hfalse := hzero.mp (by decide) false
      (List.mem_append_left _ (List.mem_replicate.mpr ⟨by decide, rfl⟩))
    exact Bool.false_ne_true hfalse

end Dpp.Wrapper
