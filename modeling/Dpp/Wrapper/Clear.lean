import Dpp.Wrapper.Arguments
import Dpp.Wrapper.File
import Dpp.Wrapper.Name

/-!
# Which prototypes the script understands

* `Faithful`: what the script has of a line is the named function and the declared identifiers.
* `Clear`: the name is clear, and each declaration has its own piece.
* **`faithful_of_clear`**: in a clear prototype nothing goes wrong; **`clear_of_faithful`**: and
  elsewhere something does, unless a declaration has the identifier of another one as a word.
-/

namespace Dpp.Wrapper

open Lib Lib.Shell

namespace Prototype

variable (P : Prototype)

/-- The name without the underscore in front. -/
def withoutUnderscore : List Char → List Char
  | '_' :: s => s
  | s => s

/-- What the script should have of the line: the four texts of this entry are for the named
function, and its wrappers forward the declared identifiers. -/
def declared (rtype : List Char) : Entry where
  rtype := rtype
  fnname := P.name.text
  symbolExists := P.name.text.head? = some '_'
  fnsig := '(' :: (P.parameters ++ ')' :: P.ending)
  params := ", ".toList.intercalate P.identifiers

/-- The line was taken for what it declares, a function with a supported prefix. -/
structure Faithful (e : Entry) : Prop where
  supported : ∃ w ∈ supportedPrefix.lang, w <+: P.name.text
  entry : e = P.declared e.rtype
  lookup : e.fnname_str = withoutUnderscore P.name.text

/-- The name is clear, and each declaration has its identifier on its own. -/
structure Clear : Prop extends ClearName P where
  own : ∀ d ∈ cuts P.ending false P.declarations, Own d

/-- No identifier is a word in the pieces of another declaration. -/
def Apart : Prop :=
  ∀ d ∈ cuts P.ending false P.declarations, ∀ l ∈ d.1, ∀ w ∈ fields l, w ∈ P.identifiers →
    d.2.map Identifier.text = some w

variable {P}

/-! ## Faithful exactly if clear -/

variable {g : PathnameExpansion} {n : ℕ} {e : Entry} {s : List Char}

theorem symbolExists_eq (line : List Char) :
    symbolExists line = decide ((fnname line).head? = some '_') := by
  cases hs : symbolExists line with
  | true =>
    obtain ⟨u, hu⟩ := exists_of_symbolExists hs
    rw [hu]
    rfl
  | false =>
    refine (decide_eq_false fun hhead => ?_).symm
    obtain ⟨u, hu⟩ := List.head?_eq_some_iff.mp hhead
    have hbegins : (many '_').Begins (fnname line) :=
      ⟨['_'], List.cons_ne_nil _ _, hu ▸ List.cons_prefix_cons.mpr ⟨rfl, List.nil_prefix⟩,
        Regex.mem_lang_star_one.mpr (by simp)⟩
    have hne := Regex.grepStart_ne_nil hbegins
    simp [symbolExists, hne] at hs

theorem fnname_str_declared (rtype : List Char) :
    (P.declared rtype).fnname_str = withoutUnderscore P.name.text := by
  unfold Entry.fnname_str declared
  dsimp only
  split_ifs with h
  · obtain ⟨u, hu⟩ := List.head?_eq_some_iff.mp (of_decide_eq_true h)
    rw [hu]
    rfl
  · unfold withoutUnderscore
    split
    · rename_i u hu
      rw [hu] at h
      exact absurd rfl h
    · rfl

theorem accepted_facts (h : parseLine g n P.line = .accepted e) :
    functionName.grepO P.body = [fnname P.body] ∧ e = entry g P.body := by
  obtain ⟨hreports, he⟩ := parseLine_accepted h
  rw [trim_line] at hreports he
  obtain ⟨-, hne, hcount, -⟩ := reports_eq_nil_iff.mp hreports
  exact ⟨grepO_functionName newline_not_mem hne hcount, he⟩

theorem word_of_mem_identifiers {w : List Char} (h : w ∈ P.identifiers) :
    ∃ i : Identifier, w = i.text := by
  obtain ⟨d, -, hd⟩ := List.mem_filterMap.mp h
  obtain ⟨i, -, rfl⟩ := Option.map_eq_some_iff.mp hd
  exact ⟨i, rfl⟩

/-- The words of a clear prototype are the identifiers. -/
theorem words_eq (hc : P.Clear) : words g P.body = P.identifiers := by
  have hfields : fields (param_names P.body) = P.identifiers := by
    rw [fields_param_names, identifiers_eq, List.filterMap_eq_flatMap_toList]
    exact List.flatMap_congr fun d hd => (own_iff d).mp (hc.own d hd)
  have hexpand : ∀ w ∈ P.identifiers, g.expand w = [w] := by
    intro w hw
    obtain ⟨i, rfl⟩ := word_of_mem_identifiers hw
    refine g.expand_plain _ fun c hc => ⟨?_, ?_, ?_⟩
    · exact fun h => i.not_mem (by decide) (h ▸ hc)
    · exact fun h => i.not_mem (by decide) (h ▸ hc)
    · exact fun h => i.not_mem (by decide) (h ▸ hc)
  rw [words, hfields, List.flatMap_congr hexpand, List.flatMap_singleton']

/-- **The script has of a clear prototype what it declares.** -/
theorem faithful_of_clear (hc : P.Clear) (h : parseLine g n P.line = .accepted e) :
    P.Faithful e := by
  obtain ⟨hgrep, he⟩ := accepted_facts h
  have hname : fnname P.body = P.name.text := (eq_name_iff hgrep).mpr hc.toClearName
  have hwords : words g P.body = P.identifiers := words_eq hc
  have hline : ∀ w ∈ words g P.body, '\n' ∉ w := by
    intro w hw
    rw [hwords] at hw
    obtain ⟨i, rfl⟩ := word_of_mem_identifiers hw
    exact i.not_mem (by decide)
  have hentry : e = P.declared e.rtype := by
    rw [he, entry, declared, symbolExists_eq, hname, fnsig_eq, params_eq hline, hwords]
  exact ⟨hc.supported, hentry, hentry ▸ fnname_str_declared e.rtype⟩

/-- The words that are forwarded are the identifiers. -/
theorem fields_eq_of_faithful (h : parseLine .emptyDirectory n P.line = .accepted e)
    (hf : P.Faithful e) : fields (param_names P.body) = P.identifiers := by
  obtain ⟨-, he⟩ := accepted_facts h
  have hwords : words .emptyDirectory P.body = fields (param_names P.body) :=
    List.flatMap_singleton' _
  have hline : ∀ w ∈ words .emptyDirectory P.body, '\n' ∉ w := by
    intro w hw hn
    rw [hwords] at hw
    exact Bool.false_ne_true (((of_mem_fields hw).2 _ hn).symm.trans rfl)
  have hparams : ", ".toList.intercalate (fields (param_names P.body)) =
      ", ".toList.intercalate P.identifiers := by
    have hparams := congrArg Entry.params hf.entry
    rw [he, entry_params, params_eq hline, hwords] at hparams
    exact hparams
  refine intercalate_injective (fun w hw => of_mem_fields hw) (fun w hw => ?_) hparams
  obtain ⟨i, rfl⟩ := word_of_mem_identifiers hw
  exact ⟨i.ne_nil, i.not_isIfs⟩

/-- **Nothing else is clear**: with the identifiers apart, a prototype of which the script has what
it declares is clear. -/
theorem clear_of_faithful (ha : P.Apart) (h : parseLine .emptyDirectory n P.line = .accepted e)
    (hf : P.Faithful e) : P.Clear := by
  have hfields := fields_eq_of_faithful h hf
  obtain ⟨hgrep, he⟩ := accepted_facts h
  have hname : fnname P.body = P.name.text := by
    have hfnname := congrArg Entry.fnname hf.entry
    rwa [he, entry_fnname] at hfnname
  refine ⟨(eq_name_iff hgrep).mp hname, ?_⟩
  have hflat : (cuts P.ending false P.declarations).flatMap (fun d => d.1.flatMap forwarded) =
      (cuts P.ending false P.declarations).filterMap fun d => d.2.map Identifier.text := by
    rw [← fields_param_names, hfields, identifiers_eq]
  have hmem : ∀ d ∈ cuts P.ending false P.declarations, ∀ w ∈ d.1.flatMap forwarded,
      d.2.map Identifier.text = some w := by
    intro d hd w hw
    have hin : w ∈ P.identifiers := by
      rw [← hfields, fields_param_names]
      exact List.mem_flatMap.mpr ⟨d, hd, hw⟩
    obtain ⟨l, hl, hwl⟩ := List.mem_flatMap.mp hw
    exact ha d hd l hl w (mem_fields_of_mem_forwarded hwl) hin
  intro d hd
  rw [own_iff]
  exact eq_toList_of_flatMap_eq hflat (identifiers_eq ▸ P.nodup) hmem d hd

theorem forall_mem_of_all {p : Char → Prop} [DecidablePred p]
    (h : s.all fun c => decide (p c)) : ∀ c ∈ s, p c := fun c hc =>
  of_decide_eq_true (List.all_eq_true.mp h c hc)

theorem forall_mem_of_option_all {p : Char → Prop} [DecidablePred p] {o : Option Char}
    (h : o.all fun c => decide (p c)) : ∀ c ∈ o, p c := by
  rintro c rfl
  exact of_decide_eq_true h

/-- `VOID IoFoo(... p)` -/
def oneParameter (before : List Char) (hend : before.getLast?.all fun c => ¬ isIdent c)
    (hline : (before ++ []).all fun c => c ≠ ';' ∧ c ≠ '\n') (hnested : nested 0 (before ++ [])) :
    Prototype where
  lead := []
  rtype := "VOID ".toList
  name := ⟨"IoFoo".toList, by decide, forall_mem_of_all (by decide),
    forall_mem_of_option_all (by decide)⟩
  gap := []
  first := ⟨before, some ⟨"p".toList, by decide, forall_mem_of_all (by decide),
    forall_mem_of_option_all (by decide)⟩, [], forall_mem_of_option_all hend, nofun,
    forall_mem_of_all hline, hnested⟩
  others := []
  tail := []
  semicolon := none
  lead_blank := nofun
  rtype_ne_nil := by decide
  rtype_start := forall_mem_of_option_all (by decide)
  rtype_end := forall_mem_of_option_all (by decide)
  rtype_line := forall_mem_of_all (by decide)
  gap_space := nofun
  tail_space := nofun
  semicolon_space := nofun
  nodup := List.nodup_singleton _

end Prototype

end Dpp.Wrapper
