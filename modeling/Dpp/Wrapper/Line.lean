import Dpp.Lib.Regex
import Dpp.Lib.Shell

/-!
# A line of the function list

`CRT/gen_wrapper.sh` reads one prototype a line. What it takes from a line are the matches of a few
regular expressions, put through `$(...)`.

* `rtype`, `fnname`, `fnsig`, `param_names`, `params`: what the script calls so.
* `reports`: what it has to say against the line; `parseLine`: all of it.
* `accepted_iff`, **`rtype_mem`**, **`fnname_of_accepted`**: what is known of an accepted line.
-/

namespace Dpp.Wrapper

open Lib Lib.Shell

/-! ## The expressions -/

/-- `(NTSYSAPI |NTSYSCALLAPI |)(NTSTATUS NTAPI|VOID|PVOID NTAPI|BOOLEAN|PEX_TIMER)` -/
def linkages : List (List Char) := ["NTSYSAPI ".toList, "NTSYSCALLAPI ".toList, []]

def returnTypes : List (List Char) :=
  ["NTSTATUS NTAPI".toList, "VOID".toList, "PVOID NTAPI".toList, "BOOLEAN".toList,
    "PEX_TIMER".toList]

def returnValue : Regex Char := .seq (.oneOf linkages) (.oneOf returnTypes)

/-- `(_|)(Ex|Zw|Rtl|Ob[^j]|Mm|Io)` -/
def supportedPrefix : Regex Char :=
  .seq (.oneOf ["_".toList, []])
    (.alt (.oneOf ["Ex".toList, "Zw".toList, "Rtl".toList, "Mm".toList, "Io".toList])
      (.seq (.literal "Ob".toList) (.one (· ≠ 'j'))))

/-- `(_|)(Ex|Zw|Rtl|Ob[^j]|Mm|Io)[^ (]*` -/
def functionName : Regex Char :=
  .seq supportedPrefix (.star (.one fun c => c ≠ ' ' && c ≠ '('))

/-- `\([^;]*` -/
def signature : Regex Char := .seq (.one (· = '(')) (.star (.one (· ≠ ';')))

/-- `c*` -/
def many (c : Char) : Regex Char := .star (.one (· = c))

/-- `[^ ]*` -/
def parameterName : Regex Char := .star (.one (· ≠ ' '))

/-! ## What the script takes from a line -/

/-- The lines that a command writes, in a variable. -/
def capture (ls : List (List Char)) : List Char := substitution (joinLines ls)

/-- `sed 's/\(.*\)\(NTSYSAPI\|NTSYSCALLAPI\) \(.*\)/\1\3/'`, where it finds something. -/
def dropLinkage : List Char → Option (List Char)
  | [] => none
  | c :: s =>
    match dropLinkage s with
    | some t => some (c :: t)
    | none =>
      if "NTSYSAPI ".toList.isPrefixOf (c :: s) then some (s.drop 8)
      else if "NTSYSCALLAPI ".toList.isPrefixOf (c :: s) then some (s.drop 12)
      else none

/-- The return type, as it stands in the line. -/
def rtypeMatch (line : List Char) : List Char := capture (returnValue.grepStart line)

def rtype (line : List Char) : List Char :=
  capture [(dropLinkage (rtypeMatch line)).getD (rtypeMatch line)]

def fnname (line : List Char) : List Char := capture (functionName.grepO line)

/-- `SYMBOL_EXISTS`, of a name in one line. -/
def symbolExists (line : List Char) : Bool := !((many '_').grepStart (fnname line)).isEmpty

def fnsig (line : List Char) : List Char := capture (signature.grepO line)

/-- `tr -d '()'` -/
def withoutBraces (s : List Char) : List Char := s.filter fun c => c ≠ '(' && c ≠ ')'

def params_without_braces (line : List Char) : List Char :=
  substitution (withoutBraces (fnsig line))

/-- `sed 's/\([^,]*\)/\1\n/g'`: a newline behind each piece, and the one of the line. -/
def pieces (s : List Char) : List (List Char) :=
  match s.splitOn ',' with
  | [] => [[]]
  | p :: ps => p :: ps.map (',' :: ·) ++ [[]]

/-- `sed 's/\([^,]*\)/\1\n/g' | grep -oE '[^ ]*$'` -/
def param_names (line : List Char) : List Char :=
  if params_without_braces line = [] then []
  else capture <|
    (((params_without_braces line).splitOn '\n').flatMap pieces).flatMap parameterName.grepEnd

/-- The words of `for param in ${param_names}`. -/
def words (g : PathnameExpansion) (line : List Char) : List (List Char) :=
  (fields (param_names line)).flatMap g.expand

/-- `sed 's/^\(.*\), $/\1/g'` -/
def dropComma (s : List Char) : List Char :=
  if ", ".toList.isSuffixOf s then s.take (s.length - 2) else s

def params (g : PathnameExpansion) (line : List Char) : List Char :=
  capture ((((words g line).flatMap (· ++ ", ".toList)).splitOn '\n').map dropComma)

/-! ## The line -/

/-- What is written into the generated file for an accepted line. -/
structure Entry where
  rtype : List Char
  fnname : List Char
  symbolExists : Bool
  fnsig : List Char
  params : List Char
  deriving DecidableEq

inductive LineResult
  | skipped
  | rejected (reports : List (List Char))
  | accepted (e : Entry)
  deriving DecidableEq

/-- A message about line `n`. -/
def atLine (n : ℕ) (message : String) : List Char :=
  "Line ".toList ++ n.repr.toList ++ ": ".toList ++ message.toList

/-- A message, and `VALID=0`. -/
def reportIf (p : Prop) [Decidable p] (message : List Char) : List (List Char) :=
  if p then [message] else []

/-- What is written on stderr about the line with number `n`. -/
def reports (g : PathnameExpansion) (n : ℕ) (line : List Char) : List (List Char) :=
  reportIf (rtypeMatch line = []) (atLine n
    "Missing return value of either type 'NTSTATUS NTAPI', 'VOID', 'PVOID', 'BOOLEAN' or 'PEX_TIMER'.")
  ++ reportIf (fnname line = []) (atLine n "Missing function name.")
  ++ reportIf ((fnname line ++ ['\n']).count '\n' ≠ 1)
    ("Invalid function name '".toList ++ fnname line ++ "'.".toList)
  ++ reportIf (fnsig line = []) (atLine n "Missing function signature.")
  ++ reportIf (params_without_braces line ≠ [] ∧ param_names line = [])
    (atLine n "Could not parse function parameters.")
  ++ (words g line).flatMap (fun param => reportIf (param = [])
    (atLine n "Invalid parameter found. Please re-check regex'es used."))
  ++ reportIf (params g line = [] ∧ params_without_braces line ≠ [])
    (atLine n "Parameters empty. Please re-check regex'es used.")

/-- What the script has of a line with `VALID=1`. -/
def entry (g : PathnameExpansion) (line : List Char) : Entry :=
  ⟨rtype line, fnname line, symbolExists line, fnsig line, params g line⟩

@[simp] theorem entry_fnname (g : PathnameExpansion) (line : List Char) :
    (entry g line).fnname = fnname line := by
  rw [entry]

@[simp] theorem entry_params (g : PathnameExpansion) (line : List Char) :
    (entry g line).params = params g line := by
  rw [entry]

/-- A blank line or a comment. -/
def skips (line : List Char) : Prop := line = [] ∨ (many '#').grepStart line ≠ []

instance (line : List Char) : Decidable (skips line) := inferInstanceAs (Decidable (_ ∨ _))

/-- One turn of the loop, up to `VALID`. -/
def parseLine (g : PathnameExpansion) (n : ℕ) (raw : List Char) : LineResult :=
  let line := trim raw
  if skips line then .skipped
  else if reports g n line = [] then .accepted (entry g line)
  else .rejected (reports g n line)

variable {g : PathnameExpansion} {n : ℕ} {raw line : List Char} {e : Entry}

theorem reportIf_eq_nil_iff {p : Prop} [Decidable p] {message : List Char} :
    reportIf p message = [] ↔ ¬ p := by
  unfold reportIf
  by_cases h : p
  · rw [if_pos h]
    exact iff_of_false (List.cons_ne_nil _ _) (not_not.mpr h)
  · rw [if_neg h]
    exact iff_of_true rfl h

/-- Every message is about something the line lacks. -/
theorem reports_eq_nil_iff : reports g n line = [] ↔ rtypeMatch line ≠ [] ∧ fnname line ≠ [] ∧
    (fnname line ++ ['\n']).count '\n' = 1 ∧ fnsig line ≠ [] ∧
    (params_without_braces line ≠ [] → param_names line ≠ []) ∧ (∀ w ∈ words g line, w ≠ []) ∧
    (params_without_braces line ≠ [] → params g line ≠ []) := by
  unfold reports
  simp only [List.append_eq_nil_iff, reportIf_eq_nil_iff, List.flatMap_eq_nil_iff]
  constructor
  · rintro ⟨⟨⟨⟨⟨⟨hr, hf⟩, hc⟩, hs⟩, hn⟩, hw⟩, hp⟩
    exact ⟨hr, hf, not_not.mp hc, hs, fun h h' => hn ⟨h, h'⟩, hw, fun h h' => hp ⟨h', h⟩⟩
  · rintro ⟨hr, hf, hc, hs, hn, hw, hp⟩
    exact ⟨⟨⟨⟨⟨⟨hr, hf⟩, not_not.mpr hc⟩, hs⟩, fun h => hn h.1 h.2⟩, hw⟩, fun h => hp h.2 h.1⟩

theorem parseLine_accepted (h : parseLine g n raw = .accepted e) :
    reports g n (trim raw) = [] ∧ e = entry g (trim raw) := by
  unfold parseLine at h
  dsimp only at h
  split_ifs at h with hskip hok
  exact ⟨hok, (LineResult.accepted.inj h).symm⟩

theorem parseLine_skipped_iff : parseLine g n raw = .skipped ↔ skips (trim raw) := by
  unfold parseLine
  dsimp only
  split_ifs with hskip hok
  · exact iff_of_true rfl hskip
  · exact iff_of_false not_false hskip
  · exact iff_of_false not_false hskip

/-- A line that is not taken is reported. -/
theorem parseLine_rejected {rs : List (List Char)} (h : parseLine g n raw = .rejected rs) :
    rs ≠ [] := by
  unfold parseLine at h
  dsimp only at h
  split_ifs at h with hskip hok
  rw [← LineResult.rejected.inj h]
  exact hok

/-! ## The return type -/

theorem capture_singleton {w : List Char} (h : '\n' ∉ w) : capture [w] = w := by
  rw [capture, joinLines, List.intercalate_singleton, substitution_of_not_mem h]

/-- The script knows the return type of a line that it takes. -/
theorem rtype_mem (h : rtypeMatch line ≠ []) : rtype line ∈ returnTypes := by
  have hcases : ∀ u ∈ linkages, ∀ v ∈ returnTypes,
      capture [(dropLinkage (capture [u ++ v])).getD (capture [u ++ v])] ∈ returnTypes := by
    decide
  unfold rtype rtypeMatch at *
  unfold Regex.grepStart at *
  split at h
  · rename_i a w hl
    obtain ⟨u, hu, v, hv, huv⟩ := Regex.mem_lang_seq.mp (Regex.longest_eq_some_iff.mp hl).mem
    rw [← huv]
    exact hcases u (Regex.mem_lang_oneOf.mp hu) v (Regex.mem_lang_oneOf.mp hv)
  · exact absurd rfl h

/-! ## The function name -/

theorem exists_of_symbolExists (h : symbolExists line) : ∃ u, fnname line = '_' :: u := by
  unfold symbolExists Regex.grepStart at h
  split at h
  · rename_i a w hl
    have hw := Regex.longest_eq_some_iff.mp hl
    have ha : a = '_' := by simpa using Regex.mem_lang_star_one.mp hw.mem a List.mem_cons_self
    obtain ⟨t, ht⟩ := hw.isPrefix
    exact ⟨w ++ t, by rw [← ht, ha]; rfl⟩
  · cases h

/-- The name that is left is the only match. -/
theorem grepO_functionName (hl : '\n' ∉ line) (hne : fnname line ≠ [])
    (hcount : (fnname line ++ ['\n']).count '\n' = 1) :
    functionName.grepO line = [fnname line] := by
  have hnot : '\n' ∉ fnname line := by
    rw [List.count_append, List.count_singleton_self] at hcount
    exact List.count_eq_zero.mp (by omega)
  match hg : functionName.grepO line with
  | [] =>
    rw [fnname, hg] at hne
    exact absurd rfl hne
  | [w] =>
    obtain ⟨u, t, rfl, -, -, hw, -⟩ := Regex.exists_of_grepO_eq_cons hg
    rw [fnname, hg, capture_singleton]
    exact fun hn => hl (List.mem_append_right u (hw.isPrefix.subset hn))
  | w :: v :: ws =>
    obtain ⟨u, t, rfl, -, -, hw, hrest⟩ := Regex.exists_of_grepO_eq_cons hg
    obtain ⟨u', t', hu', -, hv, hvl, -⟩ := Regex.exists_of_grepO_eq_cons hrest
    refine absurd ?_ hnot
    rw [fnname, hg]
    refine newline_mem_capture hv fun hn => hl (List.mem_append_right u ?_)
    have ht' : '\n' ∈ t.drop w.length := by
      rw [hu']
      exact List.mem_append_right u' (hvl.isPrefix.subset hn)
    exact List.mem_of_mem_drop ht'

/-- What holds of the fields of an accepted line. -/
structure Entry.Valid (e : Entry) : Prop where
  rtype_mem : e.rtype ∈ returnTypes
  symbolExists : e.symbolExists → ∃ u, e.fnname = '_' :: u

theorem valid_of_accepted (h : parseLine g n raw = .accepted e) : e.Valid := by
  obtain ⟨hr, he⟩ := parseLine_accepted h
  rw [he, entry]
  exact ⟨rtype_mem (reports_eq_nil_iff.mp hr).1, exists_of_symbolExists⟩

end Dpp.Wrapper
