import Dpp.Wrapper.Line

/-!
# Prototypes

What a line of the function list is meant to be.

* `Identifier`, `Declaration`, `Prototype`: the text of a C prototype, cut where a C parser cuts it.
* `trim_line`: what `read` leaves of it; `fnsig_eq`: the signature is the parameters in their
  parentheses.
-/

namespace Dpp.Wrapper

open Lib Lib.Shell

/-! ## The text of a prototype -/

def isIdent (c : Char) : Bool := c.isAlphanum || c == '_'

/-- The white space of C, in a line. -/
def isSpace (c : Char) : Bool := c == ' ' || c == '\t' || c == '\x0b' || c == '\x0c'

structure Identifier where
  text : List Char
  ne_nil : text ≠ []
  ident : ∀ c ∈ text, isIdent c
  head_not_digit : ∀ c ∈ text.head?, ¬ c.isDigit

/-- Parentheses are balanced, from this depth on, and a comma is inside of some. -/
def nested : ℕ → List Char → Bool
  | d, [] => d = 0
  | d, '(' :: s => nested (d + 1) s
  | 0, ')' :: _ => false
  | d + 1, ')' :: s => nested d s
  | 0, ',' :: _ => false
  | d, _ :: s => nested d s

/-- What stands between two commas: a parameter and what it is called, or something that has no
name of its own, as in `()`, `(void)` and `(PVOID)`. -/
structure Declaration where
  before : List Char
  identifier : Option Identifier
  after : List Char
  before_end : ∀ c ∈ before.getLast?, ¬ isIdent c
  after_start : ∀ c ∈ after.head?, ¬ isIdent c
  line : ∀ c ∈ before ++ after, c ≠ ';' ∧ c ≠ '\n'
  nested : nested 0 (before ++ after)

namespace Declaration

def name (d : Declaration) : List Char := (d.identifier.map Identifier.text).getD []

def text (d : Declaration) : List Char := d.before ++ d.name ++ d.after

end Declaration

/-- `rtype name(params)`, with white space, and perhaps a semicolon and white space behind it. -/
structure Prototype where
  lead : List Char
  rtype : List Char
  name : Identifier
  gap : List Char
  first : Declaration
  others : List Declaration
  tail : List Char
  semicolon : Option (List Char)
  lead_blank : ∀ c ∈ lead, c = ' ' ∨ c = '\t'
  rtype_ne_nil : rtype ≠ []
  rtype_start : ∀ c ∈ rtype.head?, isIfs c = false
  rtype_end : ∀ c ∈ rtype.getLast?, ¬ isIdent c
  rtype_line : ∀ c ∈ rtype, c ≠ '(' ∧ c ≠ ';' ∧ c ≠ '\n'
  gap_space : ∀ c ∈ gap, isSpace c
  tail_space : ∀ c ∈ tail, isSpace c
  semicolon_space : ∀ s ∈ semicolon, ∀ c ∈ s, isSpace c
  nodup : ((first :: others).filterMap fun d => d.identifier.map Identifier.text).Nodup

namespace Prototype

variable (P : Prototype)

def declarations : List Declaration := P.first :: P.others

/-- The declared identifiers, in order. -/
def identifiers : List (List Char) :=
  P.declarations.filterMap fun d => d.identifier.map Identifier.text

def parameters : List Char := [','].intercalate (P.declarations.map Declaration.text)

/-- The line. -/
def line : List Char :=
  P.lead ++ P.rtype ++ P.name.text ++ P.gap ++ "(".toList ++ P.parameters ++ ")".toList ++ P.tail ++
    (P.semicolon.map (';' :: ·)).getD []

/-- The white space between the closing parenthesis and the semicolon, or what `read` leaves of
it. -/
def ending : List Char := if P.semicolon.isSome then P.tail else P.tail.rdropWhile isIfs

/-- The semicolon, and what `read` leaves behind it. -/
def rest : List Char := (P.semicolon.map fun s => ';' :: s.rdropWhile isIfs).getD []

/-- What follows the name. -/
def behind : List Char := P.gap ++ '(' :: (P.parameters ++ ')' :: (P.ending ++ P.rest))

/-- What `read` leaves of the line. -/
def body : List Char := P.rtype ++ (P.name.text ++ P.behind)

end Prototype

/-! ## Characters that are not there -/

section Characters

variable {c : Char} {s : List Char}

theorem Identifier.not_mem (i : Identifier) (hc : isIdent c = false) : c ∉ i.text := fun h =>
  Bool.false_ne_true (hc.symm.trans (i.ident c h))

theorem Identifier.not_isIfs (i : Identifier) : ∀ c ∈ i.text, isIfs c = false := by
  intro c hc
  by_contra h
  have hident := i.ident c hc
  simp only [isIfs, Bool.not_eq_false, Bool.or_eq_true, beq_iff_eq] at h
  rcases h with (rfl | rfl) | rfl <;> cases hident

theorem not_mem_of_isSpace (h : ∀ d ∈ s, isSpace d) (hc : isSpace c = false) : c ∉ s := fun hm =>
  Bool.false_ne_true (hc.symm.trans (h c hm))

theorem mem_intercalate {sep : Char} {ls : List (List Char)} (h : c ∈ [sep].intercalate ls) :
    c = sep ∨ ∃ l ∈ ls, c ∈ l := by
  induction ls with
  | nil => cases h
  | cons l ls ih =>
    cases ls with
    | nil =>
      rw [List.intercalate_singleton] at h
      exact .inr ⟨l, List.mem_cons_self, h⟩
    | cons l' ls =>
      rw [List.intercalate_cons_cons] at h
      rcases List.mem_append.mp h with h | h
      · rcases List.mem_append.mp h with h | h
        · exact .inr ⟨l, List.mem_cons_self, h⟩
        · exact .inl (List.mem_singleton.mp h)
      · rcases ih h with h | ⟨u, hu, hc⟩
        · exact .inl h
        · exact .inr ⟨u, List.mem_cons_of_mem _ hu, hc⟩

theorem Declaration.not_mem_text (d : Declaration) (hc : c = ';' ∨ c = '\n') : c ∉ d.text := by
  intro h
  have hident : isIdent c = false := by
    rcases hc with rfl | rfl <;> rfl
  have hline : c ∉ d.before ++ d.after := fun hm => by
    have := d.line c hm
    tauto
  have hname : c ∉ d.name := by
    unfold Declaration.name
    cases d.identifier with
    | none => exact List.not_mem_nil
    | some i => exact i.not_mem hident
  simp only [Declaration.text, List.mem_append] at h hline
  tauto

end Characters

namespace Prototype

variable {P : Prototype} {c : Char} {s t r : List Char}

theorem not_mem_parameters (hc : c = ';' ∨ c = '\n') : c ∉ P.parameters := by
  intro h
  rcases mem_intercalate h with rfl | ⟨l, hl, hcl⟩
  · rcases hc with hc | hc <;> cases hc
  · obtain ⟨d, -, rfl⟩ := List.mem_map.mp hl
    exact d.not_mem_text hc hcl

theorem ending_space : ∀ c ∈ P.ending, isSpace c := by
  unfold ending
  split_ifs
  · exact P.tail_space
  · exact fun c hc => P.tail_space c ((List.rdropWhile_prefix _ _).subset hc)

/-- Behind the parameters there is nothing, or a semicolon and white space. -/
theorem rest_cases : P.rest = [] ∨ ∃ s, P.rest = ';' :: s ∧ ∀ c ∈ s, isSpace c := by
  unfold rest
  cases hs : P.semicolon with
  | none => exact .inl rfl
  | some s =>
    refine .inr ⟨s.rdropWhile isIfs, rfl, fun c hc => ?_⟩
    exact P.semicolon_space s hs c ((List.rdropWhile_prefix _ _).subset hc)

/-! ## The line that the script reads -/

theorem trim_line : trim P.line = P.body := by
  have hlead : ∀ c ∈ P.lead, isIfs c := fun c hc => by
    rcases P.lead_blank c hc with rfl | rfl <;> rfl
  obtain ⟨a, u, hu⟩ := List.exists_cons_of_ne_nil P.rtype_ne_nil
  have ha : isIfs a = false := P.rtype_start a (by rw [hu]; rfl)
  have hdrop : ∀ v, (P.lead ++ (P.rtype ++ v)).dropWhile isIfs = P.rtype ++ v := fun v => by
    rw [List.dropWhile_append_of_pos hlead, hu, List.cons_append, List.dropWhile_cons, ha]
    rfl
  unfold trim line body behind ending rest
  simp only [List.append_assoc, hdrop]
  cases P.semicolon with
  | none =>
    have h := rdropWhile_append_cons (p := isIfs) (c := ')') (t := P.tail)
      (s := P.rtype ++ (P.name.text ++ (P.gap ++ '(' :: P.parameters))) rfl
    simpa using h
  | some s =>
    have h := rdropWhile_append_cons (p := isIfs) (c := ';') (t := s)
      (s := P.rtype ++ (P.name.text ++ (P.gap ++ '(' :: (P.parameters ++ ')' :: P.tail)))) rfl
    simpa using h

theorem newline_not_mem : '\n' ∉ P.body := by
  have hrtype : '\n' ∉ P.rtype := fun h => (P.rtype_line _ h).2.2 rfl
  have hgap : '\n' ∉ P.gap := not_mem_of_isSpace P.gap_space rfl
  have hparameters : '\n' ∉ P.parameters := not_mem_parameters (.inr rfl)
  have hending : '\n' ∉ P.ending := not_mem_of_isSpace ending_space rfl
  have hrest : '\n' ∉ P.rest := by
    rcases P.rest_cases with h | ⟨s, h, hs⟩
    · rw [h]
      exact List.not_mem_nil
    · rw [h]
      exact List.not_mem_cons_of_ne_of_not_mem (by decide) (not_mem_of_isSpace hs rfl)
  simp [body, behind, hrtype, P.name.not_mem, hgap, hparameters, hending, hrest, isIdent]

/-! ## The signature -/

/-- A parenthesis, up to the semicolon. -/
theorem grepO_signature (hs : '(' ∉ s) (ht : ';' ∉ t)
    (hr : r = [] ∨ ∃ u, r = ';' :: u ∧ '(' ∉ u) :
    signature.grepO (s ++ '(' :: (t ++ r)) = ['(' :: t] := by
  have hnone : ∀ u : List Char, '(' ∉ u → ∀ v, ∀ x y, x ++ y = u → y ≠ [] →
      ¬ signature.Begins (y ++ v) := by
    rintro u hu v x y rfl hy
    obtain ⟨a, y, rfl⟩ := List.exists_cons_of_ne_nil hy
    rw [List.cons_append, signature, Regex.begins_one_star_iff, decide_eq_true_iff]
    rintro rfl
    exact hu (List.mem_append_right x List.mem_cons_self)
  have hempty : ∀ u : List Char, '(' ∉ u → signature.grepO u = [] := by
    intro u hu
    rw [← List.append_nil u, Regex.grepO_append_of_not_begins (hnone u hu []), Regex.grepO_nil]
  have hpos : ∀ a ∈ t, decide (a ≠ ';') = true := fun a ha =>
    decide_eq_true fun h => ht (h ▸ ha)
  have htake : (t ++ r).takeWhile (· ≠ ';') = t := by
    rw [List.takeWhile_append_of_pos hpos]
    rcases hr with rfl | ⟨u, rfl, -⟩
    · exact List.append_nil t
    · rw [List.takeWhile_cons_of_neg (by simp), List.append_nil]
  have hlongest : signature.IsLongest ('(' :: (t ++ r)) ('(' :: t) := by
    have h := Regex.isLongest_one_star (p := (· = '(')) (q := (· ≠ ';')) (a := '(') (s := t ++ r)
      (by simp)
    rwa [htake] at h
  rw [Regex.grepO_append_of_not_begins (hnone s hs _),
    Regex.grepO_of_isLongest hlongest (List.cons_ne_nil _ _), List.length_cons,
    List.drop_succ_cons, List.drop_left, hempty]
  rcases hr with rfl | ⟨u, rfl, hu⟩
  · exact List.not_mem_nil
  · exact List.not_mem_cons_of_ne_of_not_mem (by decide) hu

/-- The signature is the parameters in their parentheses. -/
theorem fnsig_eq : fnsig P.body = '(' :: (P.parameters ++ ')' :: P.ending) := by
  have hbefore : '(' ∉ P.rtype ++ (P.name.text ++ P.gap) := by
    have hrtype : '(' ∉ P.rtype := fun h => (P.rtype_line _ h).1 rfl
    have hgap : '(' ∉ P.gap := not_mem_of_isSpace P.gap_space rfl
    simp [hrtype, P.name.not_mem, hgap, isIdent]
  have hinside : ';' ∉ P.parameters ++ ')' :: P.ending := by
    have hending : ';' ∉ P.ending := not_mem_of_isSpace ending_space rfl
    simp [not_mem_parameters, hending]
  have hrest : P.rest = [] ∨ ∃ u, P.rest = ';' :: u ∧ '(' ∉ u := by
    rcases P.rest_cases with h | ⟨s, h, hs⟩
    · exact .inl h
    · exact .inr ⟨s, h, not_mem_of_isSpace hs rfl⟩
  have hgrep := grepO_signature hbefore hinside hrest
  simp only [List.append_assoc, List.cons_append] at hgrep
  rw [fnsig, body, behind, hgrep, capture_singleton]
  have hnewline := P.newline_not_mem
  simp only [body, behind, List.mem_append, List.mem_cons] at hnewline ⊢
  tauto

end Prototype

end Dpp.Wrapper
